import TexSource.Expansion.Scan
import TexSource.Proofs.Relabeling.Tokens

/-!
# Scans of tokens with new numbers for files

No scan of an expansion looks at the file that a token comes from: each is natural
(`Expansion.Scan.Natural`). Nor do macros look at it: what a macro is replaced by, and what a name
is bound to, is what it was, with the new numbers.
-/

namespace TexSource

variable {relabeling : Relabeling}

section

variable (relabeling)

/-- A parameter with the file ids of its delimiter renamed. -/
def Parameter.relabel : Parameter → Parameter
  | .undelimited => .undelimited
  | .delimited stop => .delimited (stop.map (Token.relabel relabeling))
  | .optional default => .optional (default.map (Token.relabel relabeling))

/-- A macro with the file ids of its replacement and parameters renamed. -/
def Macro.relabel (definition : Macro) : Macro :=
  { definition with
    parameters := definition.parameters.map (Parameter.relabel relabeling)
    replacement := definition.replacement.map (Token.relabel relabeling)
    literal := definition.literal.map (Token.relabel relabeling) }

/-- Bindings with the file ids of their macros renamed. -/
def Bindings.relabel (bindings : Bindings Text Macro) : Bindings Text Macro :=
  bindings.map (Prod.map id (Macro.relabel relabeling))

/-- A scope with the file ids of its macros renamed. -/
def Scope.relabel (scope : Scope) : Scope :=
  ⟨Bindings.relabel relabeling scope.bottom, scope.inner.map (Bindings.relabel relabeling)⟩

end

namespace Token

variable (token : Token)

@[simp] theorem isDefinable_relabel :
    (token.relabel relabeling).isDefinable = token.isDefinable := rfl

@[simp] theorem macroName_relabel :
    (token.relabel relabeling).macroName = token.macroName := rfl

@[simp] theorem parameterNumber?_relabel :
    (token.relabel relabeling).parameterNumber? = token.parameterNumber? := rfl

@[simp] theorem markExpanded_relabel :
    (token.relabel relabeling).markExpanded = token.markExpanded.relabel relabeling := rfl

/-- Whether two tokens are the same does not depend on their files. -/
@[simp] theorem sameAs_relabel (other : Token) :
    (token.relabel relabeling).sameAs (other.relabel relabeling) = token.sameAs other := rfl

end Token

namespace Macro

variable (definition : Macro)

@[simp] theorem name_relabel : (definition.relabel relabeling).name = definition.name := rfl

@[simp] theorem parameters_relabel : (definition.relabel relabeling).parameters =
    definition.parameters.map (Parameter.relabel relabeling) := rfl

@[simp] theorem replacement_relabel : (definition.relabel relabeling).replacement =
    definition.replacement.map (Token.relabel relabeling) := rfl

@[simp] theorem isGlobal_relabel :
    (definition.relabel relabeling).isGlobal = definition.isGlobal := rfl

@[simp] theorem literal_relabel : (definition.relabel relabeling).literal =
    definition.literal.map (Token.relabel relabeling) := rfl

/-- A parameter text is split in the same places. -/
theorem splitParameterText_relabel (tokens : List Token) :
    splitParameterText (tokens.map (Token.relabel relabeling)) =
      ((splitParameterText tokens).1.map (Token.relabel relabeling),
        (splitParameterText tokens).2.map (List.map (Token.relabel relabeling))) := by
  fun_induction splitParameterText tokens <;> simp_all [splitParameterText]

theorem ofParameterText_relabel (name : Text) (parameterText replacement : List Token)
    (isGlobal : Bool) :
    ofParameterText name (parameterText.map (Token.relabel relabeling))
        (replacement.map (Token.relabel relabeling)) isGlobal =
      (ofParameterText name parameterText replacement isGlobal).relabel relabeling := by
  have before (stop : List Token) : parameterBefore (stop.map (Token.relabel relabeling)) =
      (parameterBefore stop).relabel relabeling := by
    cases stop <;> rfl
  simp [ofParameterText, splitParameterText_relabel, relabel, Function.comp_def, before]

/-- The argument of a number is found in the same place. -/
theorem argument?_relabel (arguments : List (List Token)) (digit : Token) :
    argument? (arguments.map (List.map (Token.relabel relabeling)))
        (digit.relabel relabeling) =
      (argument? arguments digit).map (List.map (Token.relabel relabeling)) := by
  unfold argument?
  rw [Token.parameterNumber?_relabel]
  cases digit.parameterNumber? with
  | none => rfl
  | some number => simp

/-- Arguments are put in place alike. -/
theorem substitute_relabel (arguments : List (List Token)) (replacement : List Token) :
    substitute (arguments.map (List.map (Token.relabel relabeling)))
        (replacement.map (Token.relabel relabeling)) =
      (substitute arguments replacement).map (Token.relabel relabeling) := by
  fun_induction substitute arguments replacement <;>
    simp_all [substitute, argument?_relabel]

/-- Whether a group lasts to the end does not depend on files. -/
theorem lastsToEnd_relabel (depth : Nat) (tokens : List Token) :
    lastsToEnd depth (tokens.map (Token.relabel relabeling)) = lastsToEnd depth tokens := by
  fun_induction lastsToEnd depth tokens <;> simp_all [lastsToEnd]

/-- Braces are stripped alike. -/
theorem stripBraces_relabel (tokens : List Token) :
    stripBraces (tokens.map (Token.relabel relabeling)) =
      (stripBraces tokens).map (Token.relabel relabeling) := by
  rcases tokens with _ | ⟨opener, _ | ⟨next, rest⟩⟩
  · rfl
  · rfl
  · have inside := @lastsToEnd_relabel relabeling 1 (next :: rest)
    have last : ((next :: rest).map (Token.relabel relabeling)).getLast?.any Token.isEndGroup =
        (next :: rest).getLast?.any Token.isEndGroup := by
      rw [List.getLast?_map, Option.any_map]
      rfl
    simp only [List.map_cons] at inside last
    simp only [List.map_cons, stripBraces, Token.isBeginGroup_relabel, inside, last]
    split <;> simp [List.map_dropLast]

end Macro

namespace Bindings

variable (bindings : Bindings Text Macro) (name : Text)

theorem erase_relabel : (Bindings.relabel relabeling bindings).erase name =
    Bindings.relabel relabeling (bindings.erase name) := by
  simp [Bindings.relabel, erase, List.filter_map, Function.comp_def]

theorem insert_relabel (definition : Macro) :
    (Bindings.relabel relabeling bindings).insert name (definition.relabel relabeling) =
      Bindings.relabel relabeling (bindings.insert name definition) := by
  rw [insert, erase_relabel]
  rfl

theorem get?_relabel : (Bindings.relabel relabeling bindings).get? name =
    (bindings.get? name).map (Macro.relabel relabeling) := by
  simp [Bindings.relabel, get?, List.find?_map, Function.comp_def]

end Bindings

namespace Scope

variable (scope : Scope) (name : Text)

theorem lookup_relabel : (scope.relabel relabeling).lookup name =
    (scope.lookup name).map (Macro.relabel relabeling) := by
  simp only [Layered.lookup, Layered.layers, relabel, ← List.map_singleton, ← List.map_append,
    List.findSome?_map, Function.comp_def, Bindings.get?_relabel, List.map_findSome?]

theorem binds_relabel : (scope.relabel relabeling).binds name = scope.binds name := by
  rw [binds, lookup_relabel, Option.isSome_map]
  rfl

/-- A definition is entered in the same frame. -/
theorem define_relabel (definition : Macro) :
    (scope.relabel relabeling).define (definition.relabel relabeling) =
      (scope.define definition).relabel relabeling := by
  have locally : Layered.assignLocally (scope.relabel relabeling) definition.name
      (definition.relabel relabeling) =
        Scope.relabel relabeling (scope.assignLocally definition.name definition) := by
    obtain ⟨bottom, _ | ⟨layer, outer⟩⟩ := scope <;>
      simp [Layered.assignLocally, relabel, Bindings.insert_relabel]
  have globally : Layered.assignGlobally (scope.relabel relabeling) definition.name
      (definition.relabel relabeling) =
        Scope.relabel relabeling (scope.assignGlobally definition.name definition) := by
    simp [Layered.assignGlobally, relabel, Bindings.insert_relabel, Function.comp_def,
      Bindings.erase_relabel]
  unfold define
  rw [Macro.isGlobal_relabel, Macro.name_relabel, locally, globally]
  split <;> rfl

theorem push_relabel : Layered.push (scope.relabel relabeling) =
    Scope.relabel relabeling scope.push := rfl

theorem pop_relabel : Layered.pop (scope.relabel relabeling) =
    Scope.relabel relabeling scope.pop := by
  simp [Layered.pop, relabel]

theorem popTo_relabel (depth : Nat) : Layered.popTo depth (scope.relabel relabeling) =
    Scope.relabel relabeling (scope.popTo depth) := by
  simp [Layered.popTo, relabel]

theorem depth_relabel : Layered.depth (scope.relabel relabeling) = scope.depth := by
  simp [Layered.depth, relabel]

end Scope

namespace Expansion

section

variable (relabeling)

/-- An item of a stream with its file ids renamed. -/
def Item.relabel : Item → Item
  | .token single => .token (single.relabel relabeling)
  | .endOfCall name => .endOfCall name

/-- A stream with its file ids renamed. -/
def Stream.relabel (stream : Stream) : Stream :=
  { stream with items := stream.items.map (Item.relabel relabeling) }

/-- What was read with its file ids renamed, and what is remembered as `rename` says. -/
def Reading.relabel {Memory : Type} (rename : Memory → Memory) (reading : Reading Memory) :
    Reading Memory :=
  ⟨reading.before.map (Token.relabel relabeling), reading.stop.map (Token.relabel relabeling),
    rename reading.memory, reading.stream.relabel relabeling⟩

/-- A scanner with its file ids renamed. -/
def Scanner.relabel (scanner : Scanner) : Scanner :=
  ⟨scanner.stream.relabel relabeling, scanner.consumed.map (Token.relabel relabeling),
    scanner.reports.map (Diagnostic.relabel relabeling)⟩

/-- A test of tokens does with new numbers what another one does with the old ones. -/
def Blind {Memory : Type} (rename : Memory → Memory)
    (test renamed : Memory → Token → Memory × Bool) : Prop :=
  ∀ memory token, renamed (rename memory) (token.relabel relabeling) =
    (rename (test memory token).1, (test memory token).2)

end

namespace Stream

theorem map_token_relabel (tokens : List Token) :
    (tokens.map (Token.relabel relabeling)).map Item.token =
      (tokens.map Item.token).map (Item.relabel relabeling) := by
  rw [List.map_map, List.map_map]
  rfl

theorem ofTokens_relabel (tokens : List Token) :
    ofTokens (tokens.map (Token.relabel relabeling)) = (ofTokens tokens).relabel relabeling := by
  rw [ofTokens, map_token_relabel]
  rfl

theorem push_relabel (stream : Stream) (tokens : List Token) :
    (stream.relabel relabeling).push (tokens.map (Token.relabel relabeling)) =
      (stream.push tokens).relabel relabeling := by
  rw [push, map_token_relabel, relabel, ← List.map_append]
  rfl

theorem pushCall_relabel (stream : Stream) (name : Text) (replacement : List Token) :
    (stream.relabel relabeling).pushCall name (replacement.map (Token.relabel relabeling)) =
      (stream.pushCall name replacement).relabel relabeling := by
  simp [pushCall, relabel, Function.comp_def, Item.relabel]

section

variable {Memory : Type} {rename : Memory → Memory}
  {test renamed : Memory → Token → Memory × Bool}

/-- A test that does not look at file ids stops reading at the same item. -/
theorem readItems_relabel (blind : Blind relabeling rename test renamed) (memory : Memory)
    (items : List Item) (calls : List Text) :
    readItems renamed (rename memory) (items.map (Item.relabel relabeling)) calls =
      (readItems test memory items calls).relabel relabeling rename := by
  fun_induction readItems test memory items calls with
  | case1 => rfl
  | case2 memory rest calls name ih => exact ih
  | case3 memory token rest calls remembered seen =>
    rw [List.map_cons, Item.relabel, readItems, blind, seen]
    rfl
  | case4 memory token rest calls remembered stops seen goesOn later ih =>
    rw [List.map_cons, Item.relabel, readItems, blind, seen]
    dsimp only
    rw [if_neg goesOn, ih]
    rfl

/-- A stream is read up to the same token. -/
theorem readUntil_relabel (blind : Blind relabeling rename test renamed) (memory : Memory)
    (stream : Stream) :
    (stream.relabel relabeling).readUntil renamed (rename memory) =
      (stream.readUntil test memory).relabel relabeling rename :=
  readItems_relabel blind memory stream.items stream.calls

end

/-- The next token is the same but for its file. -/
theorem next_relabel (stream : Stream) :
    (stream.relabel relabeling).next =
      (stream.next.1.map (Token.relabel relabeling), stream.next.2.relabel relabeling) := by
  have blind : Blind relabeling id (fun _ _ => ((), true)) fun _ _ => ((), true) :=
    fun _ _ => rfl
  have read := readUntil_relabel blind () stream
  rw [id] at read
  rw [next, read]
  rfl

end Stream

namespace Scan

/-- A scan does with new numbers for files what another one does with the old ones. -/
abbrev Natural {Result : Type} (relabeling : Relabeling) (rename : Result → Result)
    (scan renamed : Scan Result) : Prop :=
  TexSource.Natural (Scanner.relabel relabeling) rename scan renamed

/-- A test whose memory has no numbers in it does not look at those of tokens. -/
theorem blind_of_forall {Memory : Type} {test : Memory → Token → Memory × Bool}
    (same : ∀ memory token, test memory (token.relabel relabeling) = test memory token) :
    Blind relabeling id test test :=
  same

theorem natural_readUntil {Memory : Type} {rename : Memory → Memory}
    {test renamed : Memory → Token → Memory × Bool}
    (blind : Blind relabeling rename test renamed) (memory : Memory) :
    Natural relabeling (Reading.relabel relabeling rename) (readUntil test memory)
      (readUntil renamed (rename memory)) := by
  constructor
  intro scanner
  have read := Stream.readUntil_relabel blind memory scanner.stream
  have listed (stop : Option Token) : (stop.map (Token.relabel relabeling)).toList =
      stop.toList.map (Token.relabel relabeling) := by
    cases stop <;> rfl
  simp [readUntil, Scanner.relabel, read, Reading.relabel, listed]

theorem natural_unread : Natural relabeling id unread unread := by
  constructor
  intro scanner
  have last : (scanner.relabel relabeling).consumed.getLast? =
      scanner.consumed.getLast?.map (Token.relabel relabeling) := List.getLast?_map
  unfold unread
  rw [last]
  cases scanner.consumed.getLast? with
  | none => rfl
  | some token =>
    have pushed := @Stream.push_relabel relabeling scanner.stream [token]
    simp only [List.map_cons, List.map_nil] at pushed
    simp [Scanner.relabel, pushed, List.map_dropLast]

theorem natural_report (problem : Problem) (span : Span) :
    Natural relabeling id (report problem span) (report problem (span.relabel relabeling)) := by
  constructor
  intro scanner
  show _ = ((), Scanner.relabel relabeling
    { scanner with reports := scanner.reports.push (problem.reportAt span) })
  simp only [Scanner.relabel, Array.map_push, Problem.relabel_reportAt]
  rfl

theorem natural_next : Natural relabeling (Option.map (Token.relabel relabeling)) next next :=
  .bind (natural_readUntil (blind_of_forall fun _ _ => rfl) ()) fun _ => .pure _

/-- In renamed files the same blanks are passed over. -/
theorem natural_nextSignificant (spacesOnly : Bool) :
    Natural relabeling (Option.map (Token.relabel relabeling)) (nextSignificant spacesOnly)
      (nextSignificant spacesOnly) :=
  .bind (natural_readUntil (blind_of_forall fun _ _ => rfl) ()) fun _ => .pure _

/-- Where a group ends does not depend on files. -/
theorem blind_groupTest : Blind relabeling id groupTest groupTest := by
  intro depth token
  unfold groupTest
  rw [Token.isBeginGroup_relabel, Token.isEndGroup_relabel]
  rfl

theorem natural_group :
    Natural relabeling (Reading.relabel relabeling id) group group :=
  natural_readUntil blind_groupTest 0

/-- What a scan finds between delimiters. -/
abbrev relabelFound (relabeling : Relabeling) : Option (List Token) → Option (List Token) :=
  Option.map (List.map (Token.relabel relabeling))

theorem map_stop_relabel {Memory : Type} (rename : Memory → Memory) (body : Reading Memory) :
    (body.relabel relabeling rename).stop.map (fun _ => (body.relabel relabeling rename).before) =
      relabelFound relabeling (body.stop.map fun _ => body.before) := by
  unfold Reading.relabel
  cases body.stop <;> rfl

/-- A group is read up to its closing brace. -/
theorem natural_closedGroup :
    Natural relabeling (relabelFound relabeling) closedGroup closedGroup := by
  refine .bind natural_group fun body => ?_
  rw [map_stop_relabel]
  exact .pure _

theorem natural_bracket : Natural relabeling (relabelFound relabeling) bracket bracket := by
  refine .bind (natural_readUntil (blind_of_forall fun depth token => ?_) 0) fun body => ?_
  · unfold bracketTest
    rw [Token.isBeginGroup_relabel, Token.isEndGroup_relabel, Token.isCharacter_relabel]
  · rw [map_stop_relabel]
    exact .pure _

theorem natural_environmentName : Natural relabeling id environmentName environmentName := by
  refine .bind (natural_nextSignificant _) fun token => ?_
  cases token with
  | none => exact .pure _
  | some token =>
    refine .ite (.bind natural_closedGroup fun body => ?_) (.bind natural_unread fun _ => .pure _)
    have named : (relabelFound relabeling body).map (fun body => (Token.rawText body).strip) =
        body.map fun body => (Token.rawText body).strip := by
      cases body <;> simp
    rw [named]
    exact .pure _

/-- A macro that a scan reads. -/
abbrev relabelDefinition (relabeling : Relabeling) : Option Macro → Option Macro :=
  Option.map (Macro.relabel relabeling)

/-- A definition is read alike. -/
theorem natural_definition (isGlobal : Bool) :
    Natural relabeling (relabelDefinition relabeling) (definition isGlobal)
      (definition isGlobal) := by
  refine .bind (natural_nextSignificant _) fun name => ?_
  cases name with
  | none => exact .pure _
  | some name =>
    refine .ite ?_ (.pure _)
    refine .bind (natural_readUntil (blind_of_forall fun _ _ => rfl) ()) fun parameterText => ?_
    dsimp only [Reading.relabel]
    rw [Option.isSome_map]
    refine .ite ?_ (.pure _)
    refine .bind natural_group fun body => ?_
    dsimp only [Reading.relabel]
    rw [Option.isNone_map, Macro.ofParameterText_relabel]
    exact .ite (.bind (natural_report ..) fun _ => .pure _) (.pure _)

theorem natural_letSource : Natural relabeling (Option.map (Token.relabel relabeling)) letSource
    letSource := by
  refine .bind (natural_nextSignificant _) fun first => ?_
  cases first with
  | none => exact .pure _
  | some first =>
    refine .ite (.bind natural_next fun second => ?_) (.pure _)
    cases second with
    | none => exact .pure _
    | some second => exact .ite natural_next (.pure _)

/-- The source of a `\let` means the same. -/
theorem meaningOf_relabel (scope : Scope) (name : Text) (source : Token) (isGlobal : Bool) :
    meaningOf (scope.relabel relabeling) name (source.relabel relabeling) isGlobal =
      (meaningOf scope name source isGlobal).relabel relabeling := by
  unfold meaningOf
  rw [Token.isDefinable_relabel, Token.macroName_relabel, Scope.lookup_relabel]
  cases source.isDefinable with
  | false => rfl
  | true => cases scope.lookup source.macroName <;> rfl

/-- A `\let` is read alike. -/
theorem natural_letBinding (scope : Scope) (isGlobal : Bool) :
    Natural relabeling (relabelDefinition relabeling) (letBinding scope isGlobal)
      (letBinding (scope.relabel relabeling) isGlobal) := by
  refine .bind (natural_nextSignificant _) fun target => ?_
  cases target with
  | none => exact .pure _
  | some target =>
    refine .ite (.bind natural_letSource fun source => ?_) (.pure _)
    have bound : (source.map (Token.relabel relabeling)).map (fun source => meaningOf
        (scope.relabel relabeling) (target.relabel relabeling).macroName source isGlobal) =
          relabelDefinition relabeling (source.map fun source =>
            meaningOf scope target.macroName source isGlobal) := by
      cases source <;> simp [meaningOf_relabel]
    rw [bound]
    exact .pure _

theorem natural_nextPastStar :
    Natural relabeling (Option.map (Token.relabel relabeling)) nextPastStar nextPastStar := by
  refine .bind (natural_nextSignificant _) fun first => ?_
  rw [Option.any_map]
  exact .ite (natural_nextSignificant _) (.pure _)

theorem soleToken?_relabel (tokens : List Token) :
    soleToken? (tokens.map (Token.relabel relabeling)) =
      (soleToken? tokens).map (Token.relabel relabeling) := by
  unfold soleToken?
  rw [List.filter_map]
  simp only [Function.comp_def, Token.isBlank_relabel]
  generalize tokens.filter (fun token => !token.isBlank) = others
  rcases others with _ | ⟨single, _ | ⟨second, rest⟩⟩ <;> rfl

theorem filter_isDefinable_relabel (found : Option Token) :
    (found.map (Token.relabel relabeling)).filter Token.isDefinable =
      (found.filter Token.isDefinable).map (Token.relabel relabeling) := by
  cases found with
  | none => rfl
  | some token =>
    rw [Option.map_some, Option.filter_some, Option.filter_some, Token.isDefinable_relabel]
    split <;> rfl

theorem natural_newCommandName :
    Natural relabeling (Option.map (Token.relabel relabeling)) newCommandName newCommandName := by
  refine .bind natural_nextPastStar fun token => ?_
  cases token with
  | none => exact .pure _
  | some token =>
    refine .ite (.bind natural_closedGroup fun body => ?_) ?_
    · have sole : (relabelFound relabeling body).bind soleToken? =
          (body.bind soleToken?).map (Token.relabel relabeling) := by
        cases body with
        | none => rfl
        | some tokens => exact soleToken?_relabel tokens
      rw [sole, filter_isDefinable_relabel]
      exact .pure _
    · rw [← Option.map_some, filter_isDefinable_relabel]
      exact .pure _

/-- A list of arguments with its file ids renamed. -/
def ArgumentList.relabel (relabeling : Relabeling) (list : ArgumentList) : ArgumentList :=
  ⟨list.arity, relabelFound relabeling list.default, list.next.map (Token.relabel relabeling)⟩

theorem natural_argumentList :
    Natural relabeling (Except.map (Option.map (ArgumentList.relabel relabeling))) argumentList
      argumentList := by
  refine .bind (natural_nextSignificant _) fun first => ?_
  rw [Option.any_map]
  refine .ite (.bind natural_bracket fun digits => ?_) (.pure _)
  have written : Text.strip (((relabelFound relabeling digits).getD []).flatMap Token.value) =
      Text.strip ((digits.getD []).flatMap Token.value) := by
    cases digits with
    | none => rfl
    | some tokens => simp [List.flatMap_map]
  dsimp only
  rw [written]
  refine .ite ?_ (.pure _)
  cases readNumber (Text.strip ((digits.getD []).flatMap Token.value)) with
  | error error => exact .pure _
  | ok arity =>
    refine .bind (natural_nextSignificant _) fun second => ?_
    rw [Option.any_map]
    refine .ite (.bind natural_bracket fun default => ?_) (.pure _)
    cases default with
    | none => exact .pure _
    | some default => exact .bind (natural_nextSignificant _) fun _ => .pure _

theorem natural_newCommandBody (first : Option Token) :
    Natural relabeling (relabelFound relabeling) (newCommandBody first)
      (newCommandBody (first.map (Token.relabel relabeling))) := by
  cases first with
  | none => exact .pure _
  | some token => exact .ite natural_closedGroup (.pure _)

/-- A `\newcommand` is read alike. -/
theorem natural_newCommand :
    Natural relabeling (Except.map (relabelDefinition relabeling)) newCommand newCommand := by
  refine .bind natural_newCommandName fun name => ?_
  cases name with
  | none => exact .pure _
  | some name =>
    refine .bind natural_argumentList fun list => ?_
    rcases list with error | _ | list
    · exact .pure _
    · exact .pure _
    · refine .bind (natural_newCommandBody _) fun body => ?_
      have parameters : newCommandParameters list.arity (relabelFound relabeling list.default) =
          (newCommandParameters list.arity list.default).map (Parameter.relabel relabeling) := by
        cases list.default <;> simp [newCommandParameters, Parameter.relabel]
      have made : (relabelFound relabeling body).map (fun body : List Token =>
          ({ name := (name.relabel relabeling).macroName
             parameters := newCommandParameters (list.relabel relabeling).arity
               (list.relabel relabeling).default
             replacement := body } : Macro)) =
            relabelDefinition relabeling (body.map fun body =>
              { name := name.macroName
                parameters := newCommandParameters list.arity list.default
                replacement := body }) := by
        cases body with
        | none => rfl
        | some tokens => simp [Macro.relabel, ArgumentList.relabel, parameters]
      rw [made]
      exact .pure _

/-- Which marks stand before a definition does not depend on files. -/
theorem blind_markTest (scope : Scope) :
    Blind relabeling id (markTest scope) (markTest (scope.relabel relabeling)) := by
  intro isGlobal token
  unfold markTest
  rw [Token.kind_relabel]
  cases token.kind with
  | controlWord word =>
    dsimp only
    rw [Scope.binds_relabel]
    split <;> rfl
  | _ => rfl

/-- A marked definition with its file ids renamed. -/
def Marked.relabel (relabeling : Relabeling) : Marked → Marked
  | .defines definition => .defines (definition.relabel relabeling)
  | .givenUp => .givenUp
  | .notOurs => .notOurs

/-- A definition behind marks is read alike. -/
theorem natural_marked (scope : Scope) (isGlobal : Bool) :
    Natural relabeling (Marked.relabel relabeling) (marked scope isGlobal)
      (marked (scope.relabel relabeling) isGlobal) := by
  refine .bind (natural_readUntil (blind_markTest scope) isGlobal) fun marks => ?_
  unfold markedBehind
  dsimp only [Reading.relabel]
  cases marks.stop with
  | none => exact .pure _
  | some token =>
    dsimp only [Option.map_some]
    rw [Token.kind_relabel]
    cases token.kind with
    | controlWord word =>
      dsimp only
      rw [Scope.binds_relabel]
      refine .ite (.bind natural_unread fun _ => .pure _) ?_
      cases definer? word with
      | some isGlobalDefiner =>
        refine .bind (natural_definition _) fun definition => ?_
        cases definition <;> exact .pure _
      | none =>
        refine .ite (.bind (natural_letBinding scope _) fun definition => ?_) (.pure _)
        cases definition <;> exact .pure _
    | _ => exact .bind natural_unread fun _ => .pure _

theorem natural_literal (expected : List Token) :
    Natural relabeling id (literal expected)
      (literal (expected.map (Token.relabel relabeling))) := by
  induction expected with
  | nil => exact .pure _
  | cons token rest ih =>
    refine .bind natural_next fun actual => ?_
    cases actual with
    | none => exact .pure _
    | some actual => exact .ite ih (.pure _)

/-- A search for a delimiter with its file ids renamed. -/
def DelimiterSearch.relabel (relabeling : Relabeling) (search : DelimiterSearch) :
    DelimiterSearch :=
  ⟨search.depth, search.seen.map (Prod.map (Token.relabel relabeling) id),
    search.extra.map (Span.relabel relabeling)⟩

/-- A delimiter is found in the same place. -/
theorem endsWith_relabel (expected : List Token) (seen : List (Token × Bool)) :
    endsWith (expected.map (Token.relabel relabeling))
        (seen.map (Prod.map (Token.relabel relabeling) id)) =
      endsWith expected seen := by
  fun_induction endsWith expected seen <;> simp_all [endsWith]

/-- Where a delimited argument ends does not depend on files. -/
theorem blind_delimiterTest (reversedStop : List Token) :
    Blind relabeling (DelimiterSearch.relabel relabeling) (delimiterTest reversedStop)
      (delimiterTest (reversedStop.map (Token.relabel relabeling))) := by
  intro search token
  have ends := @endsWith_relabel relabeling reversedStop
    ((token, decide (search.depth = 0)) :: search.seen)
  refine Prod.ext ?_ ends
  obtain ⟨depth, seen, extra⟩ := search
  by_cases opens : token.isBeginGroup
  · simp [delimiterTest, DelimiterSearch.relabel, opens]
    rfl
  · by_cases closes : token.isEndGroup
    · cases depth <;> cases extra <;>
        simp [delimiterTest, DelimiterSearch.relabel, opens, closes]
    · simp [delimiterTest, DelimiterSearch.relabel, opens, closes]
      rfl

theorem natural_reportExtra (name : Text) (extra : Option Span) :
    Natural relabeling id (reportExtra name extra)
      (reportExtra name (extra.map (Span.relabel relabeling))) := by
  cases extra with
  | none => exact .pure _
  | some span => exact natural_report ..

/-- A delimited argument is read alike. -/
theorem natural_delimited (stop : List Token) (name : Text) (use : Token) :
    Natural relabeling (relabelFound relabeling) (delimited stop name use)
      (delimited (stop.map (Token.relabel relabeling)) name (use.relabel relabeling)) := by
  unfold delimited
  rw [← List.map_reverse]
  refine .bind (natural_readUntil (blind_delimiterTest _) ⟨0, [], none⟩) fun search => ?_
  refine .bind (natural_reportExtra ..) fun _ => ?_
  unfold delimitedArgument
  dsimp only [Reading.relabel]
  cases search.stop with
  | none => exact .bind (natural_report ..) fun _ => .pure _
  | some last =>
    dsimp only [Option.map_some]
    have collected : search.before.map (Token.relabel relabeling) ++ [last.relabel relabeling] =
        (search.before ++ [last]).map (Token.relabel relabeling) := by simp
    rw [collected, List.length_map, List.length_map, ← List.map_take, Macro.stripBraces_relabel]
    exact .pure _

theorem natural_argument (name : Text) (use : Token) (parameter : Parameter) :
    Natural relabeling (relabelFound relabeling) (argument name use parameter)
      (argument name (use.relabel relabeling) (parameter.relabel relabeling)) := by
  cases parameter with
  | undelimited =>
    refine .bind (natural_nextSignificant _) fun token => ?_
    cases token with
    | none => exact .pure _
    | some token =>
      exact .ite (.bind natural_unread fun _ => .pure _) (.ite natural_closedGroup (.pure _))
  | delimited stop => exact natural_delimited ..
  | optional default =>
    refine .bind (natural_nextSignificant _) fun token => ?_
    cases token with
    | none => exact .pure _
    | some token => exact .ite natural_bracket (.bind natural_unread fun _ => .pure _)

/-- The arguments of a macro. -/
abbrev relabelArguments (relabeling : Relabeling) : List (List Token) → List (List Token) :=
  List.map (List.map (Token.relabel relabeling))

/-- Arguments are read alike. -/
theorem natural_arguments (name : Text) (use : Token) (found : List (List Token))
    (parameters : List Parameter) :
    Natural relabeling (Except.map (relabelArguments relabeling))
      (arguments name use found parameters)
      (arguments name (use.relabel relabeling) (relabelArguments relabeling found)
        (parameters.map (Parameter.relabel relabeling))) := by
  induction parameters generalizing found with
  | nil =>
    have reversed : arguments name (use.relabel relabeling) (relabelArguments relabeling found) [] =
        pure (.ok (relabelArguments relabeling found.reverse)) := by
      rw [arguments, relabelArguments, List.map_reverse]
    rw [List.map_nil, reversed]
    exact .pure _
  | cons parameter rest ih =>
    refine .bind (natural_argument ..) fun tokens => ?_
    cases tokens with
    | none =>
      dsimp only [Option.map_none]
      rw [List.length_map]
      exact .pure _
    | some tokens => exact ih _

/-- The arguments of a use are read alike. -/
theorem natural_invocation (definition : Macro) (use : Token) :
    Natural relabeling (Except.map (relabelArguments relabeling)) (invocation definition use)
      (invocation (definition.relabel relabeling) (use.relabel relabeling)) := by
  refine .bind (natural_literal _) fun agrees => .ite ?_ (.pure _)
  refine .bind (natural_arguments _ _ [] _) fun found => ?_
  cases found with
  | error count =>
    dsimp only [Except.map]
    rw [Macro.parameters_relabel, List.length_map]
    exact .pure _
  | ok found => exact .pure _

theorem enclosed_relabel (first : Token) (rest : List Token) :
    enclosed (first.relabel relabeling) (rest.map (Token.relabel relabeling)) =
      (enclosed first rest).map (Token.relabel relabeling) := by
  unfold enclosed
  rw [List.getLast?_map]
  cases rest.getLast? <;> simp [Token.relabel, Span.emptyAt, Span.relabel]

/-- A directive with its file ids renamed. -/
def Directive.relabel (relabeling : Relabeling) (directive : Directive) : Directive :=
  { directive with tokens := directive.tokens.map (Token.relabel relabeling) }

/-- An inclusion directive is read alike. -/
theorem natural_inclusion :
    Natural relabeling (Option.map (Directive.relabel relabeling)) inclusion inclusion := by
  refine .bind (natural_nextSignificant _) fun token => ?_
  cases token with
  | none => exact .pure _
  | some token =>
    refine .ite ?_ (.ite ?_ (.pure _))
    · refine .bind natural_closedGroup fun body => ?_
      cases body with
      | none => exact .pure _
      | some body =>
        refine .get fun scanner => ?_
        dsimp only
        rw [Token.rawText_relabel]
        split <;> exact .pure _
    · refine .get fun scanner => ?_
      refine .bind (natural_readUntil (blind_of_forall fun _ _ => rfl) ()) fun more => ?_
      dsimp only [Reading.relabel, Scanner.relabel]
      have found : (token.relabel relabeling :: more.before.map (Token.relabel relabeling)).flatMap
          Token.value = (token :: more.before).flatMap Token.value := by
        simp [List.flatMap_map]
      rw [Option.isSome_map, found, enclosed_relabel, ← List.map_dropLast, ← List.map_append]
      exact .ite (.bind natural_unread fun _ => .pure _) (.pure _)

end Scan

end Expansion

end TexSource
