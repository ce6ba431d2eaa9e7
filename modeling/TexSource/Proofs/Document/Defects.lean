import Mathlib.Data.List.Basic
import TexSource.Proofs.Document.Productions
import TexSource.Proofs.Document.Roles

/-!
# Defects of a document and their reports

A defect is a node that shows that the source is not well formed: a group or a formula that is
not closed, a stray closing brace, an environment that its own end does not close, a stray
`\end`. A command falls short of its signature when mandatory arguments are missing. The parser
reports exactly these, in the order in which the nodes are created.
-/

namespace TexSource

/-- The name in braces behind an `\end`, which is empty if there is none. -/
def Command.endName (invocation : Command) : Text :=
  match invocation.arguments with
  | [argument] => argument.content.innerText.strip
  | _ => []

/-- The problem of a node in a role, if it has one. -/
def Role.problem (role : Role) : Node → Option Problem
  | .leaf _ placed =>
    if role = .text && placed.token.isEndGroup then some .unexpectedGroupEnd else none
  | .group _ .root _ _ _ _ => none
  | .group _ .brace _ _ closer _ => if closer.isSome then none else some .unterminatedGroup
  | .group _ .bracket _ _ closer _ => if closer.isSome then none else some .unterminatedOptional
  | .math _ display opener _ closer _ =>
    if closer.isSome then none
    else some (.unterminatedMath display (Parser.Closing.ofOpener opener.token).text)
  | .command invocation =>
    if invocation.name = "end" && role ≠ .ending then some (.unmatchedEnd invocation.endName)
    else none
  | .environment _ name _ _ none matched _ =>
    if matched then none else some (.environmentNeverClosed name)
  | .environment _ name _ _ (some last) matched _ =>
    if matched then none else some (.environmentEndedBy name last.endName)
  | .inclusion _ _ _ _ _ _ => none

/-- A defect: a node in a role with a problem, by its number. -/
def Role.defect (located : Role × Node) : Option (Problem × NodeId) :=
  (located.1.problem located.2).map (·, located.2.id)

namespace ArgumentKind

/-- A list of argument kinds without some of its optional ones. -/
inductive Omits : List ArgumentKind → List ArgumentKind → Prop where
  | nil : Omits [] []
  | keep (kind : ArgumentKind) {kinds others : List ArgumentKind} (later : Omits kinds others) :
      Omits (kind :: kinds) (kind :: others)
  | omit {kinds others : List ArgumentKind} (later : Omits kinds others) :
      Omits (.optional :: kinds) others

/-- The position of the mandatory kind behind a number of mandatory kinds, when the first kind
has the given position. -/
def mandatoryBehind : (count position : Nat) → List ArgumentKind → Option Nat
  | _, _, [] => none
  | count, position, .optional :: kinds => mandatoryBehind count (position + 1) kinds
  | 0, position, .mandatory :: _ => some position
  | count + 1, position, .mandatory :: kinds => mandatoryBehind count (position + 1) kinds

end ArgumentKind

/-- What is expected behind a command: the argument kinds, the position of the first, and the
name under which missing arguments are reported. -/
structure Expected where
  name : Text
  first : Nat
  kinds : List ArgumentKind

namespace Expected

/-- The message about the mandatory argument that is missing behind those found. -/
def shortfall (expected : Expected) (arguments : List Argument) : Option Text :=
  (ArgumentKind.mandatoryBehind ((arguments.map Argument.kind).count .mandatory) expected.first
    expected.kinds).map fun position => (Problem.missingArgument position expected.name).message

/-- The arguments are those expected, with optional ones left out, up to the end or up to a
mandatory one that is missing. -/
inductive Accepts (expected : Expected) (arguments : List Argument) : Prop where
  | whole (kinds : ArgumentKind.Omits expected.kinds (arguments.map Argument.kind))
      (full : expected.shortfall arguments = none)
  | short (before behind : List ArgumentKind)
      (kinds : expected.kinds = before ++ .mandatory :: behind)
      (found : ArgumentKind.Omits before (arguments.map Argument.kind))
      (lacks : expected.shortfall arguments =
        some (Problem.missingArgument (expected.first + before.length) expected.name).message)

end Expected

section

variable (commands : CommandTable)

/-- What is expected behind a command in a role. The first argument of the head of an
environment is its name, and those that the name calls for are counted from one. -/
def Role.expected (invocation : Command) : Role → Expected
  | .opening name =>
    ⟨"begin" ++ Problem.braced name, 0, .mandatory :: (commands.environment name).arguments⟩
  | _ => ⟨invocation.name, 1, (commands.command invocation.name).arguments⟩

/-- The message about a missing argument of a command in a role; an `\end` is not concerned. -/
def Role.shortfall : Role × Node → Option Text
  | (role, .command invocation) =>
    if invocation.name = "end" then none
    else (role.expected commands invocation).shortfall invocation.arguments
  | _ => none

/-- The arguments of every command are accepted, those of an `\end` apart. -/
def Role.Accepted : Role × Node → Prop
  | (role, .command invocation) =>
    invocation.name ≠ "end" → (role.expected commands invocation).Accepts invocation.arguments
  | _ => True

end

namespace Problem

/-- Whether a problem is one of those that the parser reports. -/
def isStructural : Problem → Bool
  | nestingTooDeep limit => limit = Parser.maxNesting
  | unexpectedGroupEnd => true
  | unterminatedGroup => true
  | unterminatedOptional => true
  | unterminatedMath _ _ => true
  | unmatchedEnd _ => true
  | environmentNeverClosed _ => true
  | environmentEndedBy _ _ => true
  | missingArgument _ _ => true
  | _ => false

theorem head?_message_ne {problem : Problem} (structural : problem.isStructural = true)
    (other : problem.isNesting = false) : problem.message.head? ≠ some (.char 'n') := by
  have unequal : some (Glyph.char 'u') ≠ some (.char 'n') := by decide
  have backslash : some (Glyph.char '\\') ≠ some (.char 'n') := by decide
  have environment : some (Glyph.char 'e') ≠ some (.char 'n') := by decide
  have missing : some (Glyph.char 'm') ≠ some (.char 'n') := by decide
  cases problem with
  | nestingTooDeep => cases other
  | unexpectedGroupEnd | unterminatedGroup | unterminatedOptional | unterminatedMath =>
    exact unequal
  | unmatchedEnd | environmentEndedBy => exact backslash
  | environmentNeverClosed => exact environment
  | missingArgument => exact missing
  | _ => cases structural

/-- Among the problems that the parser reports, no other has the message of content that lies
too deep. -/
theorem message_eq_nesting_iff {problem : Problem} (structural : problem.isStructural = true) :
    problem.message = (nestingTooDeep Parser.maxNesting).message ↔ problem.isNesting = true := by
  constructor
  · intro same
    by_contra other
    exact head?_message_ne structural (Bool.not_eq_true _ ▸ other) (congrArg List.head? same)
  · intro nesting
    cases problem with
    | nestingTooDeep limit => rw [of_decide_eq_true structural]
    | _ => cases nesting

end Problem

namespace Parser

variable {commands : CommandTable} {level : Nat} {mode : Mode} {role : Role}
  {ahead after : List Token} {piece : Piece} {reports : List Report} {invocation : Command}

/-- The problem that is reported at a node, and the node, unless content lies too deep there. -/
def Report.defect (report : Report) : Option (Problem × NodeId) :=
  if report.isNesting then none else report.node.map (report.problem, ·)

/-- Leaves that are no stray closing braces are no defects. -/
theorem defect_leaves {tokens : List Token} {nodes : List Node} (leaves : Leaves tokens nodes)
    (quiet : ∀ token ∈ tokens, role = .text → token.isEndGroup = false) :
    (locatedAll commands level role nodes).filterMap Role.defect = [] := by
  rw [List.filterMap_eq_nil_iff]
  intro located member
  obtain ⟨id, placed, rfl, inside⟩ := locatedAll_leaves commands level role leaves located member
  by_cases text : role = .text
  · simp [Role.defect, Role.problem, quiet _ inside text]
  · simp [Role.defect, Role.problem, text]

/-- What is passed over has no defect. -/
theorem defect_skipped {tokens : List Token} {nodes : List Node} (leaves : Leaves tokens nodes)
    (skipped : ∀ token ∈ tokens, isSkipped token = true) :
    (locatedAll commands level .text nodes).filterMap Role.defect = [] :=
  defect_leaves leaves fun token member _ =>
    (Token.isBrace_eq_false_iff.mp (isBrace_of_isSkipped (skipped token member))).2

/-- A leaf is a defect in text if it is a closing brace. -/
theorem defect_leaf (id : NodeId) {placed : Placed} (other : placed.token.isEndGroup = false) :
    Role.defect (role, .leaf id placed) = none := by
  simp [Role.defect, Role.problem, other]

/-- A stray closing brace is a defect. -/
theorem defect_strayGroupEnd (id : NodeId) {placed : Placed}
    (ends : placed.token.isEndGroup = true) :
    Role.defect (.text, .leaf id placed) = some (.unexpectedGroupEnd, id) := by
  simp [Role.defect, Role.problem, ends, Node.id]

/-- A command that is no `\end` is no defect. -/
theorem defect_command (other : invocation.name ≠ "end") :
    Role.defect (role, .command invocation) = none := by
  simp [Role.defect, Role.problem, other]

@[simp] theorem defect_ending (invocation : Command) :
    Role.defect (.ending, .command invocation) = none := by
  simp [Role.defect, Role.problem]

/-- An end without its begin is a defect. -/
theorem defect_strayEnding (ends : invocation.name = "end") :
    Role.defect (.text, .command invocation) =
      some (.unmatchedEnd invocation.endName, invocation.id) := by
  simp [Role.defect, Role.problem, ends, Node.id]

/-- An environment is a defect exactly if it is reported as mismatched. -/
theorem defect_mismatch (id : NodeId) (name : Text) (opening : Command) (body : List Node)
    {ending : Option (Command × Text)} (named : ∀ found ∈ ending, found.1.endName = found.2)
    (span : Span) :
    ((mismatch name opening ending).toList.map fun defect =>
        (⟨defect.1, defect.2, some id⟩ : Report)).filterMap Report.defect =
      (Role.defect (.text, .environment id name opening body (ending.map Prod.fst)
        (mismatch name opening ending).isNone span)).toList := by
  unfold mismatch
  cases ending with
  | none => rfl
  | some ending =>
    obtain ⟨last, endName⟩ := ending
    obtain rfl : last.endName = endName := named _ rfl
    dsimp only
    split <;> rfl

/-- The name of an end is that of its command. -/
theorem Reads.endName_ending {name : Text}
    (read : Reads commands level mode ahead (.ending invocation name) after reports) :
    invocation.endName = name := by
  cases read <;> rfl

/-- The name of an end behind a body is that of its command. -/
theorem Reads.endName_behindBody {ending : Option (Command × Text)}
    (read : Reads commands level mode ahead (.behindBody ending) after reports) :
    ∀ found ∈ ending, found.1.endName = found.2 := by
  cases read with
  | unended => exact nofun
  | ended read =>
    intro found present
    cases present
    exact read.endName_ending

/-- **The reports of each piece** are the defects of its nodes, in their order. -/
theorem Reads.defects (read : Reads commands level mode ahead piece after reports) :
    reports.filterMap Report.defect =
      (piece.located commands level).filterMap Role.defect := by
  induction read with
  | stop => rfl
  | next _ _ _ first later =>
    rw [List.filterMap_append, first, later]
    simp
  | unopened _ _ _ ih => exact ih
  | @group _ _ _ _ _ closer _ _ _ _ _ room _ _ _ ih =>
    rw [List.filterMap_append, ih]
    simp only [Piece.located, Node.located, contentRole_of_lt room, filterMap_concat]
    cases closer <;> rfl
  | @flatGroup _ _ _ _ children closer _ _ _ deepest _ leaves _ =>
    have quiet : (locatedAll commands (maxNesting + 1) .flattened children).filterMap
        Role.defect = [] := defect_leaves leaves fun _ _ => nofun
    subst deepest
    change _ = (locatedAll commands (maxNesting + 1) .flattened children ++ [_]).filterMap _
    rw [filterMap_concat, quiet]
    cases closer <;> rfl
  | strayGroupEnd ends _ =>
    simp only [Piece.located, Node.located, List.filterMap_cons, defect_strayGroupEnd _ ends]
    rfl
  | strayEnding _ read ih =>
    rw [List.filterMap_append, ih]
    simp only [Piece.located, Node.located, Command.located_eq, filterMap_concat,
      defect_strayEnding read.name_ending, read.endName_ending]
    rfl
  | @math _ _ _ _ _ _ closer _ _ _ _ _ _ _ _ closed _ _ ih =>
    rw [List.filterMap_append, ih, closed]
    simp only [Piece.located, Node.located, filterMap_concat]
    cases closer <;> rfl
  | @environment _ _ id name opening body ending span _ _ _ _ _ _ _ _ opened _ ended head inside
      behind =>
    have opens : opening.name ≠ "end" := opened.name_opening ▸ by decide
    have own := defect_mismatch id name opening body ended.endName_behindBody span
    simp only [List.filterMap_append, head, inside, behind, own]
    rw [Piece.located, Node.located_environment, filterMap_concat]
    simp [Command.located_eq, defect_command opens, Option.toList_map, List.flatMap_map]
  | nameless _ word _ read ih =>
    have begins : ("begin" : Text) ≠ "end" := by decide
    rw [← value_of_isControlWord word, ← read.name_command] at begins
    simpa [Node.located, Command.located_eq, defect_command begins] using ih
  | plainCommand plain read ih =>
    have other := read.name_command ▸ value_ne_end read.sequence_command plain
    simpa [Node.located, Command.located_eq, defect_command other] using ih
  | leaf _ plain =>
    have other := (Token.isBrace_eq_false_iff.mp (isBrace_of_plain plain)).2
    simp [Node.located, defect_leaf _ other]
  | command _ _ _ _ _ ih => exact ih
  | noArguments => rfl
  | omitted _ _ ih => exact ih
  | optional _ leading _ _ first later =>
    rw [List.filterMap_append, first, later]
    simp [defect_skipped leading (skipped_spacesAhead _)]
  | @bracket _ _ _ _ _ closer _ _ _ _ _ _ _ _ _ ih =>
    rw [List.filterMap_append, ih]
    simp only [Piece.located, Node.located, contentRole_bracket, filterMap_concat]
    cases closer <;> rfl
  | missing => rfl
  | braced leading _ _ _ first later =>
    rw [List.filterMap_append, first, later]
    simp [defect_skipped leading (skipped_gapAhead _ _)]
  | single leading _ accepted _ _ ih =>
    simp [ih, defect_skipped leading (skipped_gapAhead _ _), Node.located,
      defect_leaf _ (isEndGroup_of_accepted accepted)]
  | opening _ _ _ leading _ _ _ _ first later =>
    rw [List.filterMap_append, first, later]
    simp [defect_skipped leading (skipped_spacesAhead _)]
  | namedEnding _ _ _ leading _ _ ih =>
    simp [ih, defect_skipped leading (skipped_spacesAhead _)]
  | namelessEnding => rfl
  | verbatimBody verbatim leaves =>
    simp [CommandTable.bodyRole, verbatim, defect_leaves leaves]
  | textBody _ text _ ih => simpa [CommandTable.bodyRole, text] using ih
  | unended => rfl
  | ended _ ih => simpa [Command.located_eq] using ih

/-- The message of a report that an argument is missing. -/
def Report.shortfall (report : Report) : Option Text :=
  if report.problem.kind = .macroArityMismatch then some report.problem.message else none

/-- What is expected of the arguments that a piece ends with, and those found. -/
@[simp] def Piece.expected (commands : CommandTable) : Piece → Option (Expected × List Argument)
  | .command invocation => some (Role.text.expected commands invocation, invocation.arguments)
  | .opening invocation name =>
    some ((Role.opening name).expected commands invocation, invocation.arguments)
  | .arguments name position kinds found => some (⟨name, position, kinds⟩, found)
  | _ => none

/-- The message about a missing argument at the end of a piece. -/
@[simp] def Piece.shortfall (commands : CommandTable) (piece : Piece) : Option Text :=
  (piece.expected commands).bind fun expected => expected.1.shortfall expected.2

section

variable (command : Text) (position : Nat) (kinds : List ArgumentKind) (leading : List Node)
  (content : Node) (found : List Argument)

/-- Without arguments to come nothing is missing. -/
@[simp] theorem shortfall_nil : Expected.shortfall ⟨command, position, []⟩ found = none := by
  simp [Expected.shortfall, ArgumentKind.mandatoryBehind]

/-- A mandatory argument that is found leaves the others to be found behind it. -/
@[simp] theorem shortfall_cons_mandatory :
    Expected.shortfall ⟨command, position, .mandatory :: kinds⟩
        (⟨.mandatory, leading, content⟩ :: found) =
      Expected.shortfall ⟨command, position + 1, kinds⟩ found := by
  simp [Expected.shortfall, ArgumentKind.mandatoryBehind]

/-- A missing optional argument is no shortfall. -/
@[simp] theorem shortfall_cons_optional :
    Expected.shortfall ⟨command, position, .optional :: kinds⟩
        (⟨.optional, leading, content⟩ :: found) =
      Expected.shortfall ⟨command, position + 1, kinds⟩ found := by
  simp [Expected.shortfall, ArgumentKind.mandatoryBehind]

/-- Optional arguments do not count. -/
theorem shortfall_omitted : Expected.shortfall ⟨command, position, .optional :: kinds⟩ found =
    Expected.shortfall ⟨command, position + 1, kinds⟩ found := by
  simp [Expected.shortfall, ArgumentKind.mandatoryBehind]

end

/-- Leaves lack no arguments. -/
theorem shortfall_leaves {tokens : List Token} {nodes : List Node} (leaves : Leaves tokens nodes) :
    (locatedAll commands level role nodes).filterMap (Role.shortfall commands) = [] := by
  rw [List.filterMap_eq_nil_iff]
  intro located member
  obtain ⟨id, placed, rfl, -⟩ := locatedAll_leaves commands level role leaves located member
  rfl

@[simp] theorem shortfall_leaf (id : NodeId) (placed : Placed) :
    Role.shortfall commands (role, .leaf id placed) = none := rfl

/-- A command falls short behind the commands in its arguments. -/
theorem shortfall_command (other : invocation.name ≠ "end") :
    (invocation.located commands level role).filterMap (Role.shortfall commands) =
      (locatedArguments commands level invocation.arguments).filterMap (Role.shortfall commands) ++
        ((role.expected commands invocation).shortfall invocation.arguments).toList := by
  rw [Command.located_eq, filterMap_concat, Role.shortfall, if_neg other]

theorem shortfall_ending (ends : invocation.name = "end") :
    Role.shortfall commands (role, .command invocation) = none := by
  rw [Role.shortfall, if_pos ends]

/-- Ends that do not match are no shortfall. -/
theorem shortfall_mismatch (name : Text) (opening : Command) (ending : Option (Command × Text))
    (id : NodeId) :
    ((mismatch name opening ending).toList.map fun defect =>
      (⟨defect.1, defect.2, some id⟩ : Report)).filterMap Report.shortfall = [] := by
  unfold mismatch
  cases ending with
  | none => rfl
  | some ending =>
    dsimp only
    split <;> rfl

/-- **The missing arguments of each piece** are reported, once for each command. -/
theorem Reads.shortfalls (read : Reads commands level mode ahead piece after reports) :
    reports.filterMap Report.shortfall =
      (piece.located commands level).filterMap (Role.shortfall commands) ++
        (piece.shortfall commands).toList := by
  induction read with
  | stop => rfl
  | next _ _ _ first later =>
    rw [List.filterMap_append, first, later]
    simp
  | unopened _ _ _ ih => exact ih
  | @group _ _ _ _ _ closer _ _ _ _ _ room _ _ _ ih =>
    rw [List.filterMap_append, ih]
    simp only [Piece.located, Node.located, contentRole_of_lt room, filterMap_concat]
    cases closer <;> rfl
  | @flatGroup _ _ _ _ _ closer _ _ _ _ _ leaves _ =>
    simp only [Piece.located, Node.located, filterMap_concat, shortfall_leaves leaves]
    cases closer <;> rfl
  | strayGroupEnd => rfl
  | strayEnding _ read ih =>
    rw [List.filterMap_append, ih]
    simp only [Piece.located, Node.located, Command.located_eq, filterMap_concat,
      shortfall_ending read.name_ending]
    rfl
  | @math _ _ _ _ _ _ closer _ _ _ _ _ _ _ _ _ _ _ ih =>
    rw [List.filterMap_append, ih]
    simp only [Piece.located, Node.located, filterMap_concat]
    cases closer <;> rfl
  | @environment _ _ id name opening body ending span _ _ _ _ _ _ _ _ opened _ _ head inside
      behind =>
    have opens : opening.name ≠ "end" := opened.name_opening ▸ by decide
    have own := shortfall_mismatch name opening ending id
    simp only [List.filterMap_append, head, inside, behind, own]
    rw [Piece.located, Node.located_environment, filterMap_concat]
    simp [shortfall_command opens, Option.toList_map, List.flatMap_map, Role.shortfall]
  | nameless _ word _ read ih =>
    have begins : ("begin" : Text) ≠ "end" := by decide
    rw [← value_of_isControlWord word, ← read.name_command] at begins
    simpa [Node.located, shortfall_command begins] using ih
  | plainCommand plain read ih =>
    have other := read.name_command ▸ value_ne_end read.sequence_command plain
    simpa [Node.located, shortfall_command other] using ih
  | leaf => rfl
  | command _ _ _ _ _ ih => exact ih
  | noArguments => simp
  | omitted _ _ ih => simpa [shortfall_omitted] using ih
  | optional _ leading _ _ first later =>
    rw [List.filterMap_append, first, later]
    simp [shortfall_leaves leading]
  | @bracket _ _ _ _ _ closer _ _ _ _ _ _ _ _ _ ih =>
    rw [List.filterMap_append, ih]
    simp only [Piece.located, Node.located, contentRole_bracket, filterMap_concat]
    cases closer <;> rfl
  | missing => rfl
  | braced leading _ _ _ first later =>
    rw [List.filterMap_append, first, later]
    simp [shortfall_leaves leading]
  | single leading _ _ _ _ ih =>
    simp [ih, shortfall_leaves leading, Node.located, List.filterMap_cons]
  | opening _ _ _ leading _ _ _ _ first later =>
    rw [List.filterMap_append, first, later]
    simp [shortfall_leaves leading, Role.expected]
  | namedEnding _ _ _ leading _ _ ih => simp [ih, shortfall_leaves leading]
  | namelessEnding => rfl
  | verbatimBody verbatim leaves => simp [shortfall_leaves leaves]
  | textBody _ text _ ih => simpa [CommandTable.bodyRole, text] using ih
  | unended => rfl
  | ended read ih => simpa [Command.located_eq, shortfall_ending read.name_ending] using ih

section

variable {name : Text} {position : Nat} {kinds : List ArgumentKind} {found : List Argument}

theorem accepts_nil : Expected.Accepts ⟨name, position, []⟩ [] :=
  .whole .nil (shortfall_nil ..)

/-- A mandatory argument that is missing ends the arguments. -/
theorem accepts_missing : Expected.Accepts ⟨name, position, .mandatory :: kinds⟩ [] :=
  .short [] kinds rfl .nil rfl

/-- An optional argument may be left out. -/
theorem accepts_omitted (later : Expected.Accepts ⟨name, position + 1, kinds⟩ found) :
    Expected.Accepts ⟨name, position, .optional :: kinds⟩ found := by
  cases later with
  | whole kinds full => exact .whole kinds.omit ((shortfall_omitted ..).trans full)
  | short before behind same kinds lacks =>
    refine .short (.optional :: before) behind (congrArg (_ :: ·) same) kinds.omit ?_
    rw [shortfall_omitted, lacks, List.length_cons, Nat.add_assoc, Nat.add_comm 1]

/-- An argument of the kind that is expected is accepted. -/
theorem accepts_cons (kind : ArgumentKind) (leading : List Node) (content : Node)
    (later : Expected.Accepts ⟨name, position + 1, kinds⟩ found) :
    Expected.Accepts ⟨name, position, kind :: kinds⟩ (⟨kind, leading, content⟩ :: found) := by
  have step :
      Expected.shortfall ⟨name, position, kind :: kinds⟩ (⟨kind, leading, content⟩ :: found) =
        Expected.shortfall ⟨name, position + 1, kinds⟩ found := by
    cases kind with
    | mandatory => exact shortfall_cons_mandatory ..
    | optional => exact shortfall_cons_optional ..
  cases later with
  | whole kinds full => exact .whole (kinds.keep kind) (step.trans full)
  | short before behind same kinds lacks =>
    refine .short (kind :: before) behind (congrArg (_ :: ·) same) (kinds.keep kind) ?_
    rw [step, lacks, List.length_cons, Nat.add_assoc, Nat.add_comm 1]

end

/-- The arguments of all commands among nodes are accepted. -/
def AllAccepted (commands : CommandTable) (located : List (Role × Node)) : Prop :=
  ∀ entry ∈ located, Role.Accepted commands entry

@[simp] theorem allAccepted_nil : AllAccepted commands [] :=
  nofun

/-- Lists are accepted if both parts are. -/
@[simp] theorem allAccepted_append {located others : List (Role × Node)} :
    AllAccepted commands (located ++ others) ↔
      AllAccepted commands located ∧ AllAccepted commands others :=
  List.forall_mem_append

@[simp] theorem allAccepted_cons {entry : Role × Node} {others : List (Role × Node)} :
    AllAccepted commands (entry :: others) ↔
      Role.Accepted commands entry ∧ AllAccepted commands others :=
  List.forall_mem_cons

theorem allAccepted_leaves {tokens : List Token} {nodes : List Node}
    (leaves : Leaves tokens nodes) :
    AllAccepted commands (locatedAll commands level role nodes) := by
  intro located member
  obtain ⟨id, placed, rfl, -⟩ := locatedAll_leaves commands level role leaves located member
  trivial

/-- A command is accepted if its arguments are what is expected. -/
theorem allAccepted_command (role : Role) (arguments : AllAccepted commands
      (locatedArguments commands level invocation.arguments))
    (own : invocation.name ≠ "end" →
      (role.expected commands invocation).Accepts invocation.arguments) :
    AllAccepted commands (invocation.located commands level role) := by
  rw [Command.located_eq, allAccepted_append]
  exact ⟨arguments, allAccepted_cons.mpr ⟨own, allAccepted_nil⟩⟩

theorem allAccepted_argument (kind : ArgumentKind) {tokens : List Token} {leading : List Node}
    {content : Node} {found : List Argument} (leaves : Leaves tokens leading)
    (first : AllAccepted commands (content.located commands level .text))
    (later : AllAccepted commands (locatedArguments commands level found)) :
    AllAccepted commands
      (locatedArguments commands level (⟨kind, leading, content⟩ :: found)) := by
  rw [locatedArguments_cons, allAccepted_append, allAccepted_append]
  exact ⟨⟨allAccepted_leaves leaves, first⟩, later⟩

/-- **The arguments of each piece** are of the kinds that its commands expect. -/
theorem Reads.accepted (read : Reads commands level mode ahead piece after reports) :
    AllAccepted commands (piece.located commands level) ∧
      ∀ expected ∈ piece.expected commands, expected.1.Accepts expected.2 := by
  induction read with
  | stop => exact ⟨nofun, nofun⟩
  | next _ _ _ first later => exact ⟨allAccepted_append.mpr ⟨first.1, later.1⟩, nofun⟩
  | unopened _ _ _ ih => exact ih
  | group room _ _ _ ih =>
    simpa [Node.located, contentRole_of_lt room, Role.Accepted] using ih.1
  | flatGroup _ _ leaves _ =>
    simpa [Node.located, Role.Accepted] using allAccepted_leaves leaves
  | strayGroupEnd => simp [Node.located, Role.Accepted]
  | strayEnding _ read ih =>
    exact ⟨allAccepted_command .text ih.1 (absurd read.name_ending), nofun⟩
  | math _ _ _ _ _ _ ih => simpa [Node.located, Role.Accepted] using ih.1
  | @environment level _ _ name _ _ ending _ _ _ _ _ _ _ _ _ _ _ _ head inside behind =>
    have begun := allAccepted_command (.opening name) head.1 fun _ => head.2 _ rfl
    have last : AllAccepted commands ((ending.map Prod.fst).toList.flatMap fun ending =>
        ending.located commands level .ending) := by
      rw [Option.toList_map, List.flatMap_map]
      exact behind.1
    rw [Piece.located, Node.located_environment]
    refine ⟨allAccepted_append.mpr ⟨allAccepted_append.mpr ⟨allAccepted_append.mpr
      ⟨begun, inside.1⟩, last⟩, ?_⟩, nofun⟩
    simp [Role.Accepted]
  | nameless _ _ _ _ ih => exact ⟨allAccepted_command .text ih.1 fun _ => ih.2 _ rfl, nofun⟩
  | plainCommand _ _ ih => exact ⟨allAccepted_command .text ih.1 fun _ => ih.2 _ rfl, nofun⟩
  | leaf => simp [Node.located, Role.Accepted]
  | command _ _ _ _ _ ih => exact ⟨ih.1, by simpa [Role.expected] using ih.2⟩
  | noArguments => simpa using accepts_nil
  | omitted _ _ ih => exact ⟨ih.1, by simpa using accepts_omitted (ih.2 _ rfl)⟩
  | optional _ leading _ _ first later =>
    exact ⟨allAccepted_argument .optional leading first.1 later.1,
      by simpa using accepts_cons .optional _ _ (later.2 _ rfl)⟩
  | bracket _ _ _ _ ih => simpa [Node.located, Role.Accepted] using ih.1
  | missing => simpa using accepts_missing
  | braced leading _ _ _ first later =>
    exact ⟨allAccepted_argument .mandatory leading first.1 later.1,
      by simpa using accepts_cons .mandatory _ _ (later.2 _ rfl)⟩
  | single leading _ _ _ _ ih =>
    exact ⟨allAccepted_argument .mandatory leading (by simp [Node.located, Role.Accepted]) ih.1,
      by simpa using accepts_cons .mandatory _ _ (ih.2 _ rfl)⟩
  | opening _ _ _ leading _ _ _ _ first later =>
    exact ⟨allAccepted_argument .mandatory leading first.1 later.1,
      by simpa [Role.expected] using accepts_cons .mandatory _ _ (later.2 _ rfl)⟩
  | namedEnding _ _ _ leading _ _ ih =>
    exact ⟨allAccepted_argument .mandatory leading ih.1 nofun, nofun⟩
  | namelessEnding => exact ⟨nofun, nofun⟩
  | verbatimBody verbatim leaves => exact ⟨allAccepted_leaves leaves, nofun⟩
  | textBody _ text _ ih => simpa [CommandTable.bodyRole, text] using ih
  | unended => exact ⟨nofun, nofun⟩
  | ended read ih =>
    simpa using allAccepted_command .ending ih.1 (absurd read.name_ending)

namespace Report

/-- That nesting is too deep is no shortfall. -/
theorem shortfall_of_isNesting {report : Report} (nesting : report.isNesting = true) :
    report.shortfall = none := by
  obtain ⟨problem, span, node⟩ := report
  cases problem with
  | nestingTooDeep => rfl
  | _ => cases nesting

/-- What is picked from the reports made, when nothing is picked from those that content lies
too deep. -/
theorem filterMap_made {Picked : Type} (pick : Report → Option Picked)
    (nothing : ∀ report, report.isNesting = true → pick report = none)
    (nestingReported : Bool) (reports : List Report) :
    (made nestingReported reports).filterMap pick = reports.filterMap pick := by
  induction reports generalizing nestingReported with
  | nil => rfl
  | cons report rest ih =>
    cases nesting : report.isNesting with
    | true => cases nestingReported <;> simp [made, nesting, ih, nothing report nesting]
    | false => simp [made, nesting, ih, List.filterMap_cons]

/-- Behind the first report of nesting there is no other. -/
theorem countP_made_true (reports : List Report) : (made true reports).countP isNesting = 0 := by
  induction reports with
  | nil => rfl
  | cons report rest ih => cases nesting : report.isNesting <;> simp [made, nesting, ih]

/-- Nesting is reported once at most. -/
theorem countP_made_le (reports : List Report) : (made false reports).countP isNesting ≤ 1 := by
  induction reports with
  | nil => exact Nat.zero_le 1
  | cons report rest ih =>
    cases nesting : report.isNesting <;> simp [made, nesting, ih, countP_made_true]

/-- The reports that are made are among those that are noted. -/
theorem made_sublist (nestingReported : Bool) (reports : List Report) :
    (made nestingReported reports).Sublist reports := by
  induction reports generalizing nestingReported with
  | nil => exact .slnil
  | cons report rest ih =>
    cases nesting : report.isNesting <;> cases nestingReported <;>
      simp [made, nesting, ih, (ih _).cons]

end Report

/-- A construct without its end is a defect of the structure. -/
theorem structural_unfinished (closer : Option Placed) {missing : Problem} (span : Span)
    (id : NodeId) (structural : missing.isStructural = true) :
    ∀ report ∈ unfinished closer missing span id, report.problem.isStructural = true := by
  cases closer <;> simp [unfinished, structural]

/-- Ends that do not match are a defect of the structure. -/
theorem structural_mismatch (name : Text) (opening : Command) (ending : Option (Command × Text)) :
    ∀ defect ∈ mismatch name opening ending, defect.1.isStructural = true := by
  intro defect present
  unfold mismatch at present
  cases ending with
  | none =>
    cases present
    rfl
  | some ending =>
    dsimp only at present
    split at present <;> cases present
    rfl

/-- Every report of a piece is about the structure. -/
theorem Reads.structural (read : Reads commands level mode ahead piece after reports) :
    ∀ report ∈ reports, report.problem.isStructural = true := by
  induction read with
  | stop | leaf | noArguments | namelessEnding | verbatimBody | unended => exact nofun
  | next _ _ _ first later | optional _ _ _ _ first later | braced _ _ _ _ first later
    | opening _ _ _ _ _ _ _ _ first later => exact List.forall_mem_append.mpr ⟨first, later⟩
  | unopened _ _ _ ih => exact List.forall_mem_cons.mpr ⟨rfl, ih⟩
  | group _ _ _ _ ih | math _ _ _ _ _ _ ih | bracket _ _ _ _ ih =>
    exact List.forall_mem_append.mpr ⟨ih, structural_unfinished _ _ _ rfl⟩
  | flatGroup =>
    exact List.forall_mem_cons.mpr ⟨rfl, structural_unfinished _ _ _ rfl⟩
  | strayGroupEnd | missing => exact List.forall_mem_cons.mpr ⟨rfl, nofun⟩
  | strayEnding _ _ ih =>
    exact List.forall_mem_append.mpr ⟨ih, List.forall_mem_cons.mpr ⟨rfl, nofun⟩⟩
  | environment _ _ _ _ head inside behind =>
    refine List.forall_mem_append.mpr ⟨List.forall_mem_append.mpr
      ⟨List.forall_mem_append.mpr ⟨head, inside⟩, behind⟩, ?_⟩
    intro report member
    obtain ⟨defect, present, rfl⟩ := List.mem_map.mp member
    exact structural_mismatch _ _ _ defect (Option.mem_toList.mp present)
  | nameless _ _ _ _ ih | plainCommand _ _ ih | command _ _ _ _ _ ih | omitted _ _ ih
    | single _ _ _ _ _ ih | namedEnding _ _ _ _ _ _ ih | textBody _ _ _ ih | ended _ ih => exact ih

end Parser

namespace Document

/-- The reports on the structure of a document are its defects. -/
structure DefectsReported (commands : CommandTable) (document : Document) : Prop where
  /-- Every node of the document has one role. -/
  located : ((document.located commands).map Prod.snd).Perm document.walk
  distinct : (document.walk.map Node.id).Nodup
  /-- Apart from content that lies too deep, the reports at nodes are those of the defects. -/
  defects :
    (document.diagnostics.filter fun diagnostic =>
        diagnostic.message ≠ (Problem.nestingTooDeep Parser.maxNesting).message).filterMap
          (fun diagnostic => diagnostic.node.map (diagnostic.kind, diagnostic.message, ·)) =
      ((document.located commands).filterMap Role.defect).map
        fun defect => (defect.1.kind, defect.1.message, defect.2)
  nestingOnce :
    (document.diagnostics.filter fun diagnostic =>
      diagnostic.message = (Problem.nestingTooDeep Parser.maxNesting).message).length ≤ 1
  /-- The commands with missing arguments are those that are warned about. -/
  shortfalls :
    (document.diagnostics.filter (·.kind = .macroArityMismatch)).map Diagnostic.message =
      (document.located commands).filterMap (Role.shortfall commands)
  accepted : ∀ entry ∈ document.located commands, Role.Accepted commands entry

namespace Derived

variable {commands : CommandTable} {tokens : List Token} {document : Document}
  {children : List Node} {reports : List Parser.Report} {Picked : Type}

/-- The nodes of a document with their roles are those of its children and the root. -/
theorem located_eq (derived : Derived commands tokens document children reports) :
    document.located commands =
      locatedAll commands 0 .text children ++ [(.text, document.root)] := by
  obtain ⟨span, root⟩ := derived.root
  rw [Document.located, root]
  rfl

/-- What is picked from the nodes of a document is what is picked from the nodes read, if
nothing is picked from the root. -/
theorem filterMap_located (derived : Derived commands tokens document children reports)
    {pick : Role × Node → Option Picked} (own : pick (.text, document.root) = none) :
    (document.located commands).filterMap pick =
      (locatedAll commands 0 .text children).filterMap pick := by
  rw [derived.located_eq, Parser.filterMap_concat, own, Option.toList_none, List.append_nil]

/-- What is picked from the diagnostics of a document is what is picked from the reports found,
if nothing is picked from those that content lies too deep. -/
theorem filterMap_diagnostics (derived : Derived commands tokens document children reports)
    {pick : Diagnostic → Option Picked} {own : Parser.Report → Option Picked}
    (agree : ∀ report, report.problem.isStructural = true → pick report.diagnostic = own report)
    (nothing : ∀ report, report.isNesting = true → own report = none) :
    document.diagnostics.filterMap pick = reports.filterMap own := by
  rw [derived.diagnostics, List.filterMap_map, ← Parser.Report.filterMap_made own nothing false]
  apply List.filterMap_congr
  intro report member
  exact agree report (derived.reads.structural report
    ((Parser.Report.made_sublist false reports).subset member))

end Derived

/-- **Structural diagnostics are structural defects.** -/
theorem defects_ofTokens (tokens : List Token) (source : Text) (fileId : FileId)
    (commands : CommandTable) :
    DefectsReported commands (ofTokens tokens source fileId commands) := by
  obtain ⟨children, reports, derived⟩ := derived_ofTokens tokens source fileId commands
  generalize ofTokens tokens source fileId commands = document at derived
  obtain ⟨span, root⟩ := derived.root
  constructor
  case located => exact document.root.located_perm_walk 0 .text
  case distinct => exact derived.ids
  case defects =>
    have own : Role.defect (.text, document.root) = none := by
      rw [root]
      rfl
    rw [derived.filterMap_located own, List.filterMap_filter, ← Parser.Piece.located,
      ← derived.reads.defects, List.map_filterMap]
    apply derived.filterMap_diagnostics
    · intro report structural
      have same : report.diagnostic.message = _ ↔ report.isNesting = true :=
        Problem.message_eq_nesting_iff structural
      by_cases nesting : report.isNesting = true
      · simp [Parser.Report.defect, nesting, same.mpr nesting]
      · simp [Parser.Report.defect, nesting, mt same.mp nesting]
        rfl
    · intro report nesting
      rw [Parser.Report.defect, if_pos nesting, Option.map_none]
  case nestingOnce =>
    rw [derived.diagnostics, ← List.countP_eq_length_filter, List.countP_map]
    refine Nat.le_trans (Nat.le_of_eq (List.countP_congr ?_)) (Parser.Report.countP_made_le reports)
    intro report member
    have structural := derived.reads.structural report
      ((Parser.Report.made_sublist false reports).subset member)
    exact (decide_eq_true_iff).trans (Problem.message_eq_nesting_iff structural)
  case shortfalls =>
    have own : Role.shortfall commands (.text, document.root) = none := by
      rw [root]
      rfl
    rw [derived.filterMap_located own, ← List.filterMap_eq_map, List.filterMap_filter]
    have read := derived.reads.shortfalls
    rw [Parser.Piece.shortfall] at read
    refine (derived.filterMap_diagnostics ?_ ?_).trans (by simpa using read)
    · intro report _
      simp only [decide_eq_true_eq]
      rfl
    · intro report nesting
      exact Parser.Report.shortfall_of_isNesting nesting
  case accepted =>
    rw [derived.located_eq]
    exact Parser.allAccepted_append.mpr
      ⟨derived.reads.accepted.1, by rw [root]; simp [Role.Accepted]⟩

end Document

end TexSource
