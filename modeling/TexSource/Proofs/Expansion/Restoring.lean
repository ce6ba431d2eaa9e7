import TexSource.Proofs.Expansion.Heredity

/-!
# What scans keep

Every scan is composed of a few operations on a stream, so that what these operations have in
common all scans have (`Scan.Composes`). One such property is that a scan keeps every token it
takes: what it consumed and what it left to read are, in order, what there was before
(`Scan.Restores`). A construct that is given up can therefore be read again as it stood.
-/

namespace TexSource

namespace Expansion

namespace Scan

/-- A property that the operations on a stream have, and that survives their composition. -/
structure Composes (property : {Result : Type} → Scan Result → Prop) : Prop where
  pure {Result : Type} (result : Result) : property (Pure.pure result)
  bind {First Second : Type} {first : Scan First} {second : First → Scan Second}
    (hfirst : property first) (hsecond : ∀ result, property (second result)) :
    property (first >>= second)
  get : property (MonadState.get : Scan Scanner)
  readUntil {Memory : Type} (test : Memory → Token → Memory × Bool) (memory : Memory) :
    property (Scan.readUntil test memory)
  unread : property Scan.unread
  report (problem : Problem) (span : Span) : property (Scan.report problem span)

namespace Composes

variable {property : {Result : Type} → Scan Result → Prop}

/-- Reading a token has a property that composes. -/
theorem next (composes : Composes property) : property Scan.next :=
  composes.bind (composes.readUntil ..) fun _ => composes.pure _

/-- Reading past blanks has a property that composes. -/
theorem nextSignificant (composes : Composes property) (spacesOnly : Bool) :
    property (Scan.nextSignificant spacesOnly) :=
  composes.bind (composes.readUntil ..) fun _ => composes.pure _

/-- Reading a group has a property that composes. -/
theorem closedGroup (composes : Composes property) : property Scan.closedGroup :=
  composes.bind (composes.readUntil ..) fun _ => composes.pure _

/-- Reading a group in brackets has a property that composes. -/
theorem bracket (composes : Composes property) : property Scan.bracket :=
  composes.bind (composes.readUntil ..) fun _ => composes.pure _

theorem environmentName (composes : Composes property) : property Scan.environmentName := by
  refine composes.bind (composes.nextSignificant _) fun token => ?_
  cases token with
  | none => exact composes.pure _
  | some token =>
    dsimp only
    split
    · exact composes.bind composes.closedGroup fun _ => composes.pure _
    · exact composes.bind composes.unread fun _ => composes.pure _

/-- Reading a definition has a property that composes. -/
theorem definition (composes : Composes property) (isGlobal : Bool) :
    property (Scan.definition isGlobal) := by
  refine composes.bind (composes.nextSignificant _) fun name => ?_
  cases name with
  | none => exact composes.pure _
  | some name =>
    dsimp only
    split
    · refine composes.bind (composes.readUntil ..) fun parameterText => ?_
      split
      · refine composes.bind (composes.readUntil ..) fun body => ?_
        split
        · exact composes.bind (composes.report ..) fun _ => composes.pure _
        · exact composes.bind (composes.pure _) fun _ => composes.pure _
      · exact composes.pure _
    · exact composes.pure _

theorem letSource (composes : Composes property) : property Scan.letSource := by
  refine composes.bind (composes.nextSignificant _) fun first => ?_
  cases first with
  | none => exact composes.pure _
  | some first =>
    dsimp only
    split
    · refine composes.bind composes.next fun second => ?_
      cases second with
      | none => exact composes.pure _
      | some second =>
        dsimp only
        split
        · exact composes.next
        · exact composes.pure _
    · exact composes.pure _

/-- Reading a `\let` has a property that composes. -/
theorem letBinding (composes : Composes property) (scope : Scope) (isGlobal : Bool) :
    property (Scan.letBinding scope isGlobal) := by
  refine composes.bind (composes.nextSignificant _) fun target => ?_
  cases target with
  | none => exact composes.pure _
  | some target =>
    dsimp only
    split
    · exact composes.bind composes.letSource fun _ => composes.pure _
    · exact composes.pure _

/-- Reading behind marks has a property that composes. -/
theorem markedBehind (composes : Composes property) (scope : Scope) (marks : Reading Bool) :
    property (Scan.markedBehind scope marks) := by
  have unreadIt : property (do Scan.unread; return Marked.notOurs) :=
    composes.bind composes.unread fun _ => composes.pure _
  unfold Scan.markedBehind
  dsimp only
  split
  · exact composes.pure _
  · split
    · split
      · exact unreadIt
      · split
        · exact composes.bind (composes.definition _) fun _ => composes.pure _
        · split
          · exact composes.bind (composes.letBinding ..) fun _ => composes.pure _
          · exact composes.pure _
    · exact unreadIt

/-- Reading a definition with its marks has a property that composes. -/
theorem marked (composes : Composes property) (scope : Scope) (isGlobal : Bool) :
    property (Scan.marked scope isGlobal) :=
  composes.bind (composes.readUntil ..) fun marks => composes.markedBehind scope marks

theorem newCommandName (composes : Composes property) : property Scan.newCommandName := by
  have pastStar : property Scan.nextPastStar := by
    refine composes.bind (composes.nextSignificant _) fun first => ?_
    split
    · exact composes.nextSignificant _
    · exact composes.pure _
  refine composes.bind pastStar fun name => ?_
  cases name with
  | none => exact composes.pure _
  | some token =>
    dsimp only
    split
    · exact composes.bind composes.closedGroup fun _ => composes.pure _
    · exact composes.pure _

theorem argumentList (composes : Composes property) : property Scan.argumentList := by
  refine composes.bind (composes.nextSignificant _) fun first => ?_
  split
  · refine composes.bind composes.bracket fun digits => ?_
    dsimp only
    split
    · split
      · exact composes.pure _
      · refine composes.bind (composes.nextSignificant _) fun second => ?_
        split
        · refine composes.bind composes.bracket fun default => ?_
          split
          · exact composes.pure _
          · exact composes.bind (composes.nextSignificant _) fun _ => composes.pure _
        · exact composes.pure _
    · exact composes.pure _
  · exact composes.pure _

theorem newCommandBody (composes : Composes property) (first : Option Token) :
    property (Scan.newCommandBody first) := by
  cases first with
  | none => exact composes.pure _
  | some token =>
    unfold Scan.newCommandBody
    dsimp only
    split
    · exact composes.closedGroup
    · exact composes.pure _

/-- Reading a `\newcommand` has a property that composes. -/
theorem newCommand (composes : Composes property) : property Scan.newCommand := by
  refine composes.bind composes.newCommandName fun name => ?_
  cases name with
  | none => exact composes.pure _
  | some name =>
    refine composes.bind composes.argumentList fun list => ?_
    split
    · exact composes.pure _
    · exact composes.pure _
    · exact composes.bind (composes.newCommandBody _) fun _ => composes.pure _

theorem literal (composes : Composes property) (expected : List Token) :
    property (Scan.literal expected) := by
  induction expected with
  | nil => exact composes.pure _
  | cons token rest ih =>
    refine composes.bind composes.next fun actual => ?_
    cases actual with
    | none => exact composes.pure _
    | some actual =>
      dsimp only
      split
      · exact ih
      · exact composes.pure _

/-- Reading a delimited argument has a property that composes. -/
theorem delimited (composes : Composes property) (stop : List Token) (name : Text) (use : Token) :
    property (Scan.delimited stop name use) := by
  refine composes.bind (composes.readUntil ..) fun search => composes.bind ?_ fun _ => ?_
  · cases search.memory.extra with
    | none => exact composes.pure _
    | some span => exact composes.report ..
  · unfold delimitedArgument
    split
    · exact composes.bind (composes.report ..) fun _ => composes.pure _
    · exact composes.pure _

theorem argument (composes : Composes property) (name : Text) (use : Token)
    (parameter : Parameter) : property (Scan.argument name use parameter) := by
  cases parameter with
  | undelimited =>
    refine composes.bind (composes.nextSignificant _) fun token => ?_
    cases token with
    | none => exact composes.pure _
    | some token =>
      dsimp only
      split
      · exact composes.bind composes.unread fun _ => composes.pure _
      · split
        · exact composes.closedGroup
        · exact composes.pure _
  | delimited stop => exact composes.delimited ..
  | optional default =>
    refine composes.bind (composes.nextSignificant _) fun token => ?_
    cases token with
    | none => exact composes.pure _
    | some token =>
      dsimp only
      split
      · exact composes.bracket
      · exact composes.bind composes.unread fun _ => composes.pure _

/-- Reading arguments has a property that composes. -/
theorem arguments (composes : Composes property) (name : Text) (use : Token)
    (found : List (List Token)) (parameters : List Parameter) :
    property (Scan.arguments name use found parameters) := by
  induction parameters generalizing found with
  | nil => exact composes.pure _
  | cons parameter rest ih =>
    refine composes.bind (composes.argument ..) fun tokens => ?_
    cases tokens with
    | none => exact composes.pure _
    | some tokens => exact ih _

/-- Reading the use of a macro has a property that composes. -/
theorem invocation (composes : Composes property) (definition : Macro) (use : Token) :
    property (Scan.invocation definition use) := by
  refine composes.bind (composes.literal _) fun agrees => ?_
  split
  · refine composes.bind (composes.arguments ..) fun found => ?_
    split <;> exact composes.pure _
  · exact composes.pure _

/-- Reading a directive has a property that composes. -/
theorem inclusion (composes : Composes property) : property Scan.inclusion := by
  refine composes.bind (composes.nextSignificant _) fun token => ?_
  cases token with
  | none => exact composes.pure _
  | some token =>
    dsimp only
    split
    · refine composes.bind composes.closedGroup fun body => ?_
      cases body with
      | none => exact composes.pure _
      | some body => exact composes.bind composes.get fun _ => composes.pure _
    · split
      · refine composes.bind composes.get fun _ =>
          composes.bind (composes.readUntil ..) fun more => ?_
        split
        · exact composes.bind composes.unread fun _ => composes.pure _
        · exact composes.bind (composes.pure _) fun _ => composes.pure _
      · exact composes.pure _

end Composes

/-- A scan neither loses nor makes tokens, nor does it change their order. -/
structure Restores {Result : Type} (scan : Scan Result) : Prop where
  tokens : ∀ scanner, (scan scanner).2.consumed ++ (scan scanner).2.stream.tokens =
    scanner.consumed ++ scanner.stream.tokens

/-- **No scan loses or makes tokens.** -/
theorem composes_restores : Composes Restores where
  pure _ := ⟨fun _ => rfl⟩
  bind hfirst hsecond := ⟨fun scanner => ((hsecond _).tokens _).trans (hfirst.tokens scanner)⟩
  get := ⟨fun _ => rfl⟩
  readUntil test memory := by
    refine ⟨fun scanner => ?_⟩
    rw [Stream.tokens_readUntil test memory scanner.stream]
    simp [Scan.readUntil]
  unread := by
    refine ⟨fun scanner => ?_⟩
    unfold Scan.unread
    cases last : scanner.consumed.getLast? with
    | none => rfl
    | some token =>
      obtain ⟨before, same⟩ := List.getLast?_eq_some_iff.mp last
      simp [same, Stream.tokens_push]
  report _ _ := ⟨fun _ => rfl⟩

end Scan

namespace Branch

/-- What a scan consumed stood in front of what it left. -/
theorem tokens_attempt (branch : Branch) {Result : Type} {scan : Scan Result}
    (restores : Scan.Restores scan) : branch.stream.tokens =
      (branch.attempt scan).2.1 ++ (branch.attempt scan).2.2.stream.tokens :=
  (restores.tokens ⟨branch.stream, [], #[]⟩).symm

/-- What a construct consumed before it is given up is read again. -/
theorem tokens_giveUp_attempt (branch : Branch) {Result : Type} {scan : Scan Result}
    (restores : Scan.Restores scan) (first : Token) :
    ((branch.attempt scan).2.2.giveUp first (branch.attempt scan).2.1).stream.tokens =
      branch.stream.tokens := by
  rw [giveUp, Stream.tokens_push, ← tokens_attempt branch restores]

end Branch

end Expansion

end TexSource
