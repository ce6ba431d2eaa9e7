import Mathlib.Data.List.Nodup
import TexSource.Proofs.Document.BraceDepth
import TexSource.Proofs.Document.Defects
import TexSource.Proofs.Document.Ways
import TexSource.Proofs.Document.WellFormed

/-!
# Stray ends below environments

In an environment an `\end` ends what is read, through formulas and the optional arguments of
commands. Only the content of braces and the optional arguments of a `\begin` are read without
regard to the environment around them. So on the way down from an environment to a stray `\end`
stands a group in braces or an optional argument of a `\begin`
(`Document.guarded_of_reportsUnmatched`).
-/

namespace TexSource

namespace Node

/-- Whether a node is an environment. -/
def isEnvironment : Node → Bool
  | environment _ _ _ _ _ _ _ => true
  | _ => false

/-- Whether a node is a group with a delimiter. -/
def isGroupIn (delimiter : Delimiter) : Node → Bool
  | group _ other _ _ _ _ => other = delimiter
  | _ => false

/-- Whether a node is a command with a name. -/
def isCommand (name : Text) : Node → Bool
  | command invocation => invocation.name = name
  | _ => false

end Node

/-- A group in braces stands on a way, or an optional argument of a `\begin`. -/
def Node.Guarded (way : List Node) : Prop :=
  (∃ node ∈ way, node.isGroupIn .brace = true) ∨
    ∃ head bracket, [head, bracket] <:+: way ∧ head.isCommand "begin" = true ∧
      bracket.isGroupIn .bracket = true

/-- A way that is guarded stays so when it starts further up. -/
theorem Node.Guarded.cons {way : List Node} (guarded : Guarded way) (node : Node) :
    Guarded (node :: way) := by
  rcases guarded with ⟨group, member, braced⟩ | ⟨head, bracket, inside, begins, opens⟩
  · exact .inl ⟨group, List.mem_cons_of_mem _ member, braced⟩
  · exact .inr ⟨head, bracket, List.infix_cons inside, begins, opens⟩

/-- The nodes below a command that no guard cuts off: all but the optional arguments of a
`\begin`. -/
def Command.openBelow (invocation : Command) : List Node :=
  (Node.command invocation).children.filter fun below =>
    !(invocation.name = "begin" && below.isGroupIn .bracket)

/-- The nodes below a node that no guard cuts off. The end of an environment stands for what is
below it. -/
def Node.openBelow : Node → List Node
  | .group _ .brace _ _ _ _ => []
  | .command invocation => invocation.openBelow
  | .environment _ _ opening body ending _ _ =>
    .command opening :: body ++ ending.toList.flatMap Command.openBelow
  | node => node.children

/-- No `\end` but those of environments is found without crossing a guard. -/
inductive Node.Sheltered : Node → Prop where
  | intro {node : Node} (other : node.isCommand "end" = false)
      (below : ∀ child ∈ node.openBelow, Sheltered child) : Sheltered node

/-- A way through a group in braces is guarded. -/
theorem Node.guarded_of_isGroupIn {node : Node} (braced : node.isGroupIn .brace = true)
    (rest : List Node) : Guarded (node :: rest) :=
  .inl ⟨node, List.mem_cons_self, braced⟩

/-- What stands directly below a command is cut off by a guard, or by none. -/
theorem Command.guarded_or_open {invocation : Command} {child : Node}
    (below : child ∈ (Node.command invocation).children) (rest : List Node) :
    Node.Guarded (.command invocation :: child :: rest) ∨ child ∈ invocation.openBelow := by
  by_cases cut : invocation.name = "begin" ∧ child.isGroupIn .bracket = true
  · refine .inl (.inr ⟨_, child, ⟨[], rest, rfl⟩, ?_, cut.2⟩)
    simp [Node.isCommand, cut.1]
  · exact .inr (List.mem_filter.mpr ⟨below, by simpa [imp_iff_not_or] using cut⟩)

/-- What stands directly below a node is cut off by a guard, or by none, or it is the end of an
environment. -/
theorem Node.guarded_or_open {node child : Node} (below : child ∈ node.children)
    (rest : List Node) :
    Guarded (node :: child :: rest) ∨ child ∈ node.openBelow ∨
      ∃ id name opening body ending matched span,
        node = .environment id name opening body (some ending) matched span ∧
          child = .command ending := by
  cases node with
  | leaf => cases below
  | group id delimiter opener children closer span =>
    cases delimiter with
    | brace => exact .inl (guarded_of_isGroupIn rfl _)
    | root | bracket => exact .inr (.inl below)
  | math | inclusion => exact .inr (.inl below)
  | command invocation =>
    exact (invocation.guarded_or_open below rest).imp_right .inl
  | environment id name opening body ending matched span =>
    rw [children, List.mem_append] at below
    rcases below with inside | last
    · exact .inr (.inl (List.mem_append_left _ inside))
    · obtain ⟨ending, rfl, rfl⟩ : ∃ last, ending = some last ∧ child = .command last := by
        simpa [eq_comm] using last
      exact .inr (.inr ⟨id, name, opening, body, ending, matched, span, rfl, rfl⟩)

/-- What lies open in the end of an environment lies open in the environment. -/
theorem Command.mem_openBelow_environment {ending : Command} {child : Node}
    (reached : child ∈ ending.openBelow) (id : NodeId) (name : Text) (opening : Command)
    (body : List Node) (matched : Bool) (span : Span) :
    child ∈ (Node.environment id name opening body (some ending) matched span).openBelow := by
  simp [Node.openBelow, reached]

/-- Every way down from a node that is sheltered to an `\end` passes a guard, unless the `\end` is
that of an environment. The induction is on what no guard cuts off. -/
theorem Node.Sheltered.guarded {node : Node} (sheltered : node.Sheltered) {rest : List Node}
    {ending : Command} (descends : IsWay (node :: rest))
    (ends : (node :: rest).getLast? = some (.command ending)) (named : ending.name = "end")
    (stray : ∀ id name opening body matched span,
      .environment id name opening body (some ending) matched span ∉ node :: rest) :
    Guarded (node :: rest) := by
  induction sheltered generalizing rest with
  | @intro node other below ih =>
    cases rest with
    | nil =>
      obtain rfl : node = .command ending := by simpa using ends
      simp [isCommand, named] at other
    | cons child rest =>
      obtain ⟨inside, later⟩ := List.isChain_cons_cons.mp descends
      rw [List.getLast?_cons_cons] at ends
      rcases guarded_or_open inside rest with guarded | reached |
        ⟨id, name, opening, body, last, matched, span, rfl, rfl⟩
      · exact guarded
      · exact (ih child reached later ends fun _ _ _ _ _ _ member =>
          stray _ _ _ _ _ _ (List.mem_cons_of_mem _ member)).cons node
      · cases rest with
        | nil =>
          obtain rfl : last = ending := by simpa using ends
          exact absurd List.mem_cons_self (stray _ _ _ _ _ _)
        | cons next rest =>
          obtain ⟨inside, later⟩ := List.isChain_cons_cons.mp later
          rw [List.getLast?_cons_cons] at ends
          rcases last.guarded_or_open inside rest with guarded | reached
          · exact guarded.cons _
          · have reached := last.mem_openBelow_environment reached id name opening body matched span
            exact ((ih next reached later ends fun _ _ _ _ _ _ member =>
              stray _ _ _ _ _ _ (List.mem_cons_of_mem _ (List.mem_cons_of_mem _ member))).cons
                _).cons _

namespace Parser

variable {commands : CommandTable} {level : Nat} {mode : Mode} {ahead after : List Token}
  {piece : Piece} {reports : List Report} {name : Text} {invocation : Command}

/-- A leaf has nothing below it. -/
theorem sheltered_leaf (id : NodeId) (placed : Placed) : (Node.leaf id placed).Sheltered :=
  .intro rfl nofun

/-- In braces an `\end` is guarded. -/
theorem sheltered_of_isGroupIn {node : Node} (braced : node.isGroupIn .brace = true) :
    node.Sheltered := by
  cases node with
  | group id delimiter opener children closer span =>
    obtain rfl : delimiter = .brace := of_decide_eq_true braced
    exact .intro rfl nofun
  | _ => cases braced

theorem sheltered_leaves {tokens : List Token} {nodes : List Node}
    (leaves : Leaves tokens nodes) : ∀ node ∈ nodes, node.Sheltered := by
  induction leaves with
  | nil => exact nofun
  | cons id placed _ ih => exact List.forall_mem_cons.mpr ⟨sheltered_leaf id placed, ih⟩

/-- Arguments are sheltered, optional ones at least if `everywhere`. -/
def Shelters (everywhere : Bool) (arguments : List Argument) : Prop :=
  ∀ argument ∈ arguments, (∀ blank ∈ argument.leading, blank.Sheltered) ∧
    (everywhere = true ∨ argument.content.isGroupIn .bracket = false → argument.content.Sheltered)

theorem shelters_nil (everywhere : Bool) : Shelters everywhere [] :=
  List.forall_mem_nil _

/-- Arguments are sheltered if the first one is and the others are. -/
theorem shelters_cons {everywhere : Bool} (kind : ArgumentKind) {tokens : List Token}
    {blanks : List Node} {content : Node} {arguments : List Argument}
    (leading : Leaves tokens blanks)
    (first : everywhere = true ∨ content.isGroupIn .bracket = false → content.Sheltered)
    (later : Shelters everywhere arguments) :
    Shelters everywhere (⟨kind, blanks, content⟩ :: arguments) :=
  List.forall_mem_cons.mpr ⟨⟨sheltered_leaves leading, first⟩, later⟩

/-- Without regard to optional arguments, a `\begin` is sheltered like its arguments. -/
theorem Shelters.openBelow {everywhere : Bool} (shelters : Shelters everywhere invocation.arguments)
    (enough : everywhere = true ∨ invocation.name = "begin") :
    ∀ child ∈ invocation.openBelow, child.Sheltered := by
  intro child member
  obtain ⟨below, uncut⟩ := List.mem_filter.mp member
  obtain ⟨argument, listed, inside⟩ := List.mem_flatMap.mp below
  obtain ⟨blanks, content⟩ := shelters argument listed
  rcases List.mem_append.mp inside with blank | last
  · exact blanks child blank
  · obtain rfl := List.mem_singleton.mp last
    exact content (enough.imp_right fun begins => by simpa [begins] using uncut)

/-- A command is sheltered by its arguments, unless it is the end of an environment. -/
theorem Shelters.command {everywhere : Bool} (shelters : Shelters everywhere invocation.arguments)
    (other : invocation.name ≠ "end") (enough : everywhere = true ∨ invocation.name = "begin") :
    (Node.command invocation).Sheltered :=
  .intro (by simpa [Node.isCommand] using other) (shelters.openBelow enough)

/-- What is read in an environment is sheltered, and every environment is. -/
def Piece.Sheltered (inEnvironment : Bool) : Piece → Prop
  | .sequence _ nodes => inEnvironment = true → ∀ node ∈ nodes, node.Sheltered
  | .node content => inEnvironment = true ∨ content.isEnvironment = true → content.Sheltered
  | .bracket content => inEnvironment = true → content.Sheltered
  | .command invocation => Shelters inEnvironment invocation.arguments
  | .arguments _ _ _ found => Shelters inEnvironment found
  | .opening invocation _ => Shelters false invocation.arguments
  | .ending invocation _ => Shelters true invocation.arguments
  | .body _ nodes => ∀ node ∈ nodes, node.Sheltered
  | .behindBody found => ∀ ending ∈ found, Shelters true ending.1.arguments

/-- A formula or an environment does not start with a brace. -/
theorem isBeginGroup_of_opensNesting {token : Token} {inMath : Bool}
    (nests : opensNesting token inMath = true) : token.isBeginGroup = false := by
  rcases Bool.or_eq_true_iff.mp nests with word | shift
  · exact isBeginGroup_of_isControlWord word
  · exact (Token.isBrace_eq_false_iff.mp (isBrace_of_opensMath (Bool.and_eq_true_iff.mp shift).2)).1

/-- What starts with an opening brace is a group in braces. -/
theorem Reads.group_of_isBeginGroup {content : Node}
    (read : Reads commands level mode ahead (.node content) after reports)
    (opens : ahead.head?.any Token.isBeginGroup = true) :
    ∃ id opener children closer span,
      content = .group id .brace (some opener) children closer span := by
  -- no other construct starts with an opening brace
  cases read with
  | group | flatGroup => exact ⟨_, _, _, _, _, rfl⟩
  | unopened _ nests => simp [isBeginGroup_of_opensNesting nests] at opens
  | strayGroupEnd ends =>
    have other := Token.isEndGroup_of_isBeginGroup (by simpa using opens)
    cases ends.symm.trans other
  | strayEnding _ read => simp [read.unbraced_ending] at opens
  | math _ _ shift =>
    simp [(Token.isBrace_eq_false_iff.mp (isBrace_of_opensMath shift)).1] at opens
  | environment _ opened => simp [opened.unbraced_opening] at opens
  | nameless _ word => simp [isBeginGroup_of_isControlWord word] at opens
  | plainCommand plain | leaf _ plain =>
    simp [(Token.isBrace_eq_false_iff.mp (isBrace_of_plain plain)).1] at opens

/-- Behind an opening brace stands a group. -/
theorem Reads.isGroupIn_of_isBeginGroup {content : Node}
    (read : Reads commands level mode ahead (.node content) after reports)
    (opens : ahead.head?.any Token.isBeginGroup = true) : content.isGroupIn .brace = true := by
  obtain ⟨id, opener, children, closer, span, rfl⟩ := read.group_of_isBeginGroup opens
  rfl

/-- What is read as an optional argument is a group in brackets. -/
theorem Reads.group_bracket {content : Node}
    (read : Reads commands level mode ahead (.bracket content) after reports) :
    ∃ id opener children closer span,
      content = .group id .bracket (some opener) children closer span := by
  cases read
  exact ⟨_, _, _, _, _, rfl⟩

theorem Reads.isGroupIn_bracket {content : Node}
    (read : Reads commands level mode ahead (.bracket content) after reports) :
    content.isGroupIn .bracket = true := by
  obtain ⟨id, opener, children, closer, span, rfl⟩ := read.group_bracket
  rfl

/-- Whatever is read is sheltered. -/
theorem Reads.sheltered (read : Reads commands level mode ahead piece after reports) :
    piece.Sheltered mode.inEnvironment := by
  induction read with
  | stop => exact fun _ => List.forall_mem_nil _
  | next _ _ _ first later =>
    exact fun inside => List.forall_mem_cons.mpr ⟨first (.inl inside), later inside⟩
  | unopened _ _ _ ih => exact ih
  | group => exact fun _ => sheltered_of_isGroupIn rfl
  | flatGroup => exact fun _ => sheltered_of_isGroupIn rfl
  | strayGroupEnd => exact fun _ => sheltered_leaf ..
  | strayEnding outside => exact fun inside => by simp [outside, Node.isEnvironment] at inside
  | math _ _ _ _ _ _ ih =>
    intro inside
    exact .intro rfl (ih (by simpa [Node.isEnvironment] using inside))
  | @environment level _ _ _ opening body ending _ _ _ _ _ _ _ _ room opened _ _ head inside
      behind =>
    have begins : (Node.command opening).Sheltered :=
      Shelters.command head (opened.name_opening ▸ by decide) (.inr opened.name_opening)
    refine fun _ => .intro rfl fun child member => ?_
    rcases List.mem_append.mp member with member | member
    · exact List.forall_mem_cons.mpr ⟨begins, inside⟩ child member
    · obtain ⟨last, present, member⟩ := List.mem_flatMap.mp member
      obtain ⟨ended, found, rfl⟩ := Option.map_eq_some_iff.mp (Option.mem_toList.mp present)
      exact (behind ended found).openBelow (.inl rfl) child member
  | nameless _ word _ read ih =>
    have begins := read.name_command.trans (value_of_isControlWord word)
    exact fun _ => Shelters.command ih (begins ▸ by decide) (.inr begins)
  | plainCommand plain read ih =>
    have other := read.name_command ▸ value_ne_end read.sequence_command plain
    refine fun inside => Shelters.command ih other (.inl ?_)
    simpa [Node.isEnvironment] using inside
  | leaf => exact fun _ => sheltered_leaf ..
  | command _ _ _ _ _ ih => exact ih
  | noArguments => exact shelters_nil _
  | omitted _ _ ih => exact ih
  | optional _ leading read _ first later =>
    refine shelters_cons .optional leading (fun enough => ?_) later
    rcases enough with inside | other
    · exact first inside
    · simp [read.isGroupIn_bracket] at other
  | bracket _ _ _ _ ih => exact fun inside => .intro rfl (ih inside)
  | missing => exact shelters_nil _
  | braced leading opens read _ _ later =>
    exact shelters_cons .mandatory leading
      (fun _ => sheltered_of_isGroupIn (read.isGroupIn_of_isBeginGroup opens)) later
  | single leading _ _ _ _ ih =>
    exact shelters_cons .mandatory leading (fun _ => sheltered_leaf ..) ih
  | opening _ _ _ leading braced named _ _ first later =>
    exact shelters_cons .mandatory leading
      (fun _ => sheltered_of_isGroupIn (named.isGroupIn_of_isBeginGroup braced)) later
  | namedEnding _ _ _ leading braced named ih =>
    exact shelters_cons .mandatory leading
      (fun _ => sheltered_of_isGroupIn (named.isGroupIn_of_isBeginGroup braced)) (shelters_nil _)
  | namelessEnding => exact shelters_nil _
  | verbatimBody _ leaves => exact sheltered_leaves leaves
  | textBody _ _ _ ih => exact ih rfl
  | unended => exact fun _ absent => absurd absent (Option.not_mem_none _)
  | ended _ ih =>
    intro ending present
    cases present
    exact ih

/-- Every environment among nodes is sheltered. -/
def AllSheltered (located : List (Role × Node)) : Prop :=
  ∀ entry ∈ located, entry.2.isEnvironment = true → entry.2.Sheltered

theorem allSheltered_nil : AllSheltered [] :=
  List.forall_mem_nil _

/-- Nodes of both parts are sheltered if those of each part are. -/
theorem allSheltered_append {located others : List (Role × Node)} :
    AllSheltered (located ++ others) ↔ AllSheltered located ∧ AllSheltered others :=
  List.forall_mem_append

/-- An environment at the end has to be sheltered itself. -/
theorem AllSheltered.concat {located : List (Role × Node)} (all : AllSheltered located)
    (role : Role) {node : Node} (last : node.isEnvironment = true → node.Sheltered) :
    AllSheltered (located ++ [(role, node)]) :=
  allSheltered_append.mpr ⟨all, List.forall_mem_singleton.mpr last⟩

theorem AllSheltered.concat_other {located : List (Role × Node)} (all : AllSheltered located)
    (role : Role) {node : Node} (other : node.isEnvironment = false) :
    AllSheltered (located ++ [(role, node)]) :=
  all.concat role fun region => absurd region (other ▸ Bool.false_ne_true)

theorem allSheltered_leaf (role : Role) (id : NodeId) (placed : Placed) :
    AllSheltered [(role, .leaf id placed)] :=
  allSheltered_nil.concat_other role rfl

theorem allSheltered_leaves (role : Role) {tokens : List Token} {nodes : List Node}
    (leaves : Leaves tokens nodes) : AllSheltered (locatedAll commands level role nodes) := by
  intro entry member
  obtain ⟨id, placed, rfl, -⟩ := locatedAll_leaves commands level role leaves entry member
  exact nofun

theorem allSheltered_command (role : Role)
    (arguments : AllSheltered (locatedArguments commands level invocation.arguments)) :
    AllSheltered (invocation.located commands level role) := by
  rw [Command.located_eq]
  exact arguments.concat_other role rfl

/-- An argument is sheltered with what is skipped before it. -/
theorem allSheltered_argument (kind : ArgumentKind) {tokens : List Token} {leading : List Node}
    {content : Node} {found : List Argument} (leaves : Leaves tokens leading)
    (first : AllSheltered (content.located commands level .text))
    (later : AllSheltered (locatedArguments commands level found)) :
    AllSheltered (locatedArguments commands level (⟨kind, leading, content⟩ :: found)) :=
  allSheltered_append.mpr ⟨allSheltered_append.mpr ⟨allSheltered_leaves .text leaves, first⟩, later⟩

/-- **All environments** that are read are sheltered. -/
theorem Reads.allSheltered (read : Reads commands level mode ahead piece after reports) :
    AllSheltered (piece.located commands level) := by
  induction read with
  | stop => exact allSheltered_nil
  | next _ _ _ first later => exact allSheltered_append.mpr ⟨first, later⟩
  | unopened _ _ _ ih => exact ih
  | group room _ _ _ ih =>
    rw [Piece.located, Node.located, contentRole_of_lt room]
    exact AllSheltered.concat_other ih _ rfl
  | flatGroup _ _ leaves => exact (allSheltered_leaves _ leaves).concat_other _ rfl
  | strayGroupEnd => exact allSheltered_leaf _ _ _
  | strayEnding _ _ ih => exact allSheltered_command .text ih
  | math _ _ _ _ _ _ ih => exact AllSheltered.concat_other ih _ rfl
  | @environment level mode _ name _ _ ending _ _ _ _ _ _ _ _ room opened content ended head inside
      behind =>
    have last : AllSheltered ((ending.map Prod.fst).toList.flatMap fun ending =>
        ending.located commands level .ending) := by
      rw [Option.toList_map, List.flatMap_map]
      exact behind
    rw [Piece.located, Node.located_environment]
    refine AllSheltered.concat (allSheltered_append.mpr ⟨allSheltered_append.mpr
      ⟨allSheltered_command _ head, inside⟩, last⟩) _ fun region => ?_
    exact (Reads.environment room opened content ended).sheltered (.inr region)
  | nameless _ _ _ _ ih => exact allSheltered_command .text ih
  | plainCommand _ _ ih => exact allSheltered_command .text ih
  | leaf => exact allSheltered_leaf _ _ _
  | command _ _ _ _ _ ih => exact ih
  | noArguments => exact allSheltered_nil
  | omitted _ _ ih => exact ih
  | optional _ leading _ _ first later => exact allSheltered_argument .optional leading first later
  | bracket _ _ _ _ ih => exact AllSheltered.concat_other ih _ rfl
  | missing => exact allSheltered_nil
  | braced leading _ _ _ first later => exact allSheltered_argument .mandatory leading first later
  | single leading _ _ _ _ ih =>
    exact allSheltered_argument .mandatory leading (allSheltered_leaf _ _ _) ih
  | opening _ _ _ leading _ _ _ _ first later =>
    exact allSheltered_argument .mandatory leading first later
  | namedEnding _ _ _ leading _ _ ih =>
    exact allSheltered_argument .mandatory leading ih allSheltered_nil
  | namelessEnding => exact allSheltered_nil
  | verbatimBody _ leaves => exact allSheltered_leaves _ leaves
  | textBody _ text _ ih => simpa [CommandTable.bodyRole, text] using ih
  | unended => exact allSheltered_nil
  | ended _ ih => simpa using allSheltered_command .ending ih

end Parser

/-- The end of every environment among nodes is among them in its role. -/
def EndsLocated (located : List (Role × Node)) : Prop :=
  ∀ role id name opening body ending matched span,
    (role, .environment id name opening body (some ending) matched span) ∈ located →
      (.ending, .command ending) ∈ located

section

variable {commands : CommandTable}

theorem endsLocated_nil : EndsLocated [] :=
  nofun

/-- Ends are located if those of both parts are. -/
theorem endsLocated_append {located others : List (Role × Node)} (first : EndsLocated located)
    (later : EndsLocated others) : EndsLocated (located ++ others) := by
  intro role id name opening body ending matched span member
  rcases List.mem_append.mp member with member | member
  · exact List.mem_append_left _ (first _ _ _ _ _ _ _ _ member)
  · exact List.mem_append_right _ (later _ _ _ _ _ _ _ _ member)

/-- The end of an environment at the end of a list has to be located in it. -/
theorem EndsLocated.concat {located : List (Role × Node)} (inside : EndsLocated located)
    (role : Role) {node : Node} (other : ∀ id name opening body ending matched span,
      node ≠ .environment id name opening body (some ending) matched span) :
    EndsLocated (located ++ [(role, node)]) := by
  refine endsLocated_append inside fun _ _ _ _ _ _ _ _ member => ?_
  have same := congrArg Prod.snd (List.mem_singleton.mp member)
  exact absurd same.symm (other _ _ _ _ _ _ _)

/-- A command is among its own nodes. -/
theorem Command.mem_located (invocation : Command) (level : Nat) (role : Role) :
    (role, .command invocation) ∈ invocation.located commands level role := by
  rw [Command.located_eq]
  exact List.mem_append_right _ (List.mem_singleton_self _)

mutual

/-- The ends of all environments under a node are among its nodes. -/
theorem Node.endsLocated (level : Nat) (role : Role) : (node : Node) →
    EndsLocated (node.located commands level role)
  | .leaf id placed => endsLocated_nil.concat role nofun
  | .group id delimiter opener children closer span =>
    (endsLocated_all _ _ children).concat role nofun
  | .math id display opener children closer span =>
    (endsLocated_all (level + 1) .text children).concat role nofun
  | .command invocation => invocation.endsLocated level role
  | .environment id name opening body none matched span =>
    (endsLocated_append (opening.endsLocated level (.opening name))
      (endsLocated_all (level + 1) (commands.bodyRole name) body)).concat role nofun
  | .environment id name opening body (some ending) matched span => by
    have inside := endsLocated_append (endsLocated_append
      (opening.endsLocated level (.opening name))
      (endsLocated_all (level + 1) (commands.bodyRole name) body))
      (ending.endsLocated level .ending)
    intro role id name opening body last matched span member
    rcases List.mem_append.mp member with member | member
    · exact List.mem_append_left _ (inside _ _ _ _ _ _ _ _ member)
    · cases List.mem_singleton.mp member
      exact List.mem_append_left _ (List.mem_append_right _ (ending.mem_located level .ending))
  | .inclusion id directive fileId path document span =>
    (directive.endsLocated level role).concat role nofun

theorem Command.endsLocated (level : Nat) (role : Role) : (invocation : Command) →
    EndsLocated (invocation.located commands level role)
  | ⟨_, _, _, _, arguments, _⟩ => (endsLocated_arguments level arguments).concat role nofun

theorem endsLocated_all (level : Nat) (role : Role) : (nodes : List Node) →
    EndsLocated (locatedAll commands level role nodes)
  | [] => nofun
  | node :: rest =>
    endsLocated_append (node.endsLocated level role) (endsLocated_all level role rest)

theorem endsLocated_arguments (level : Nat) : (arguments : List Argument) →
    EndsLocated (locatedArguments commands level arguments)
  | [] => nofun
  | ⟨_, leading, content⟩ :: rest =>
    endsLocated_append (endsLocated_append (endsLocated_all level .text leading)
      (content.endsLocated level .text)) (endsLocated_arguments level rest)

end

end

/-- A way down from a node of a walk stays in the walk. -/
theorem Node.IsWay.subset_walk {root node : Node} {rest : List Node}
    (descends : IsWay (node :: rest)) (member : node ∈ root.walk) :
    ∀ other ∈ node :: rest, other ∈ root.walk := by
  induction rest generalizing node with
  | nil => exact List.forall_mem_singleton.mpr member
  | cons child rest ih =>
    obtain ⟨below, later⟩ := List.isChain_cons_cons.mp descends
    exact List.forall_mem_cons.mpr ⟨member, ih later (mem_walk_of_mem_children member below)⟩

namespace Document

/-- A document reports an `\end` as one without a `\begin`. -/
def ReportsUnmatched (document : Document) (ending : Command) : Prop :=
  ∃ diagnostic ∈ document.diagnostics, diagnostic.node = some ending.id ∧
    ∃ name, diagnostic.message = (Problem.unmatchedEnd name).message

namespace Derived

variable {commands : CommandTable} {tokens : List Token} {document : Document}
  {children : List Node} {reports : List Parser.Report}

/-- What is reported as unmatched is an `\end` that ends no environment. -/
theorem stray_of_reportsUnmatched (derived : Derived commands tokens document children reports)
    {ending : Command} (reported : document.ReportsUnmatched ending)
    (member : .command ending ∈ document.walk) :
    ending.name = "end" ∧
      ∃ role, role ≠ .ending ∧ (role, .command ending) ∈ document.located commands := by
  obtain ⟨diagnostic, listed, place, name, message⟩ := reported
  rw [derived.diagnostics] at listed
  obtain ⟨report, made, rfl⟩ := List.mem_map.mp listed
  have found := (Parser.Report.made_sublist false reports).subset made
  have structural := derived.reads.structural report found
  have other : report.isNesting = false := by
    rw [← Bool.not_eq_true]
    intro nesting
    have same := message.symm.trans ((Problem.message_eq_nesting_iff structural).mpr nesting)
    exact Problem.head?_message_ne rfl rfl (congrArg List.head? same)
  have defect : report.defect = some (report.problem, ending.id) := by
    have place : report.node = some ending.id := place
    simp [Parser.Report.defect, other, place]
  have defects := derived.reads.defects
  rw [Parser.Piece.located] at defects
  obtain ⟨⟨role, node⟩, inside, own⟩ := List.mem_filterMap.mp
    (defects ▸ List.mem_filterMap.mpr ⟨report, found, defect⟩)
  obtain ⟨problem, has, same⟩ := Option.map_eq_some_iff.mp own
  have located : (role, node) ∈ document.located commands :=
    derived.located_eq ▸ List.mem_append_left _ inside
  obtain rfl : node = .command ending :=
    List.inj_on_of_nodup_map derived.ids (mem_walk_iff.mpr ⟨role, located⟩) member
      (Prod.mk.inj same).2
  have stray : ending.name = "end" ∧ role ≠ .ending := by
    by_contra none
    simp [Role.problem, none] at has
  exact ⟨stray.1, role, stray.2, located⟩

/-- The end of an environment stands in no other role. -/
theorem ending_of_located (derived : Derived commands tokens document children reports)
    {id : NodeId} {name : Text} {opening ending : Command} {body : List Node} {matched : Bool}
    {span : Span}
    (member : .environment id name opening body (some ending) matched span ∈ document.walk)
    {role : Role} (located : (role, .command ending) ∈ document.located commands) :
    role = .ending := by
  obtain ⟨own, region⟩ := mem_walk_iff.mp member
  have last : (Role.ending, _) ∈ document.located commands :=
    document.root.endsLocated 0 .text _ _ _ _ _ _ _ _ region
  have distinct : ((document.located commands).map Prod.snd).Nodup :=
    (document.root.located_perm_walk 0 .text).nodup_iff.mpr (List.Nodup.of_map _ derived.ids)
  exact congrArg Prod.fst (List.inj_on_of_nodup_map distinct located last rfl)

/-- Every environment of a document is sheltered. -/
theorem sheltered (derived : Derived commands tokens document children reports) {node : Node}
    (member : node ∈ document.walk) (region : node.isEnvironment = true) : node.Sheltered := by
  obtain ⟨role, located⟩ := mem_walk_iff.mp member
  have all : Parser.AllSheltered (document.located commands) := by
    obtain ⟨span, root⟩ := derived.root
    rw [derived.located_eq]
    refine Parser.AllSheltered.concat derived.reads.allSheltered .text fun region => ?_
    rw [root] at region
    cases region
  exact all _ located region

end Derived

/-- **Stray ends below environments.** Whatever the tokens and the commands are, on every way down
from an environment to an `\end` that is reported as unmatched stands a group in braces or an
optional argument of a `\begin`. -/
theorem guarded_of_reportsUnmatched {tokens : List Token} {source : Text} {fileId : FileId}
    {commands : CommandTable} {environment : Node} {way : List Node} {ending : Command}
    (region : environment.isEnvironment = true)
    (member : environment ∈ (ofTokens tokens source fileId commands).walk)
    (descends : Node.IsWay way) (starts : way.head? = some environment)
    (ends : way.getLast? = some (.command ending))
    (reported : (ofTokens tokens source fileId commands).ReportsUnmatched ending) :
    Node.Guarded way := by
  obtain ⟨children, reports, derived⟩ := derived_ofTokens tokens source fileId commands
  generalize ofTokens tokens source fileId commands = document at *
  obtain ⟨rest, rfl⟩ := List.head?_eq_some_iff.mp starts
  have inside := descends.subset_walk member
  obtain ⟨named, role, other, located⟩ :=
    derived.stray_of_reportsUnmatched reported (inside _ (List.mem_of_getLast? ends))
  refine (derived.sheltered member region).guarded descends ends named ?_
  intro id name opening body matched span listed
  exact other (derived.ending_of_located (inside _ listed) located)

/-- An `\end` in braces in an environment. -/
def bracedEnding : List Token :=
  tokenOf (.controlWord "begin") :: (labelOf "a" ++
    tokenOf (.beginGroup (.char '\x7b')) :: tokenOf (.controlWord "end") :: (labelOf "a" ++
      tokenOf (.endGroup (.char '\x7d')) :: tokenOf (.controlWord "end") :: labelOf "a"))

/-- The way down from a node by the positions of the nodes below. -/
def along : Node → List Nat → List Node
  | node, [] => [node]
  | node, position :: positions =>
    node :: match node.children[position]? with
      | none => []
      | some child => along child positions

/-- Positions below a node are a way. -/
theorem isWay_along (node : Node) (positions : List Nat) : Node.IsWay (along node positions) := by
  induction positions generalizing node with
  | nil => exact .singleton node
  | cons position positions ih =>
    rw [along]
    cases found : node.children[position]? with
    | none => exact .singleton node
    | some child =>
      have rest := ih child
      have below := List.mem_of_getElem? found
      cases positions with
      | nil => exact .cons_cons below rest
      | cons => exact .cons_cons below rest

theorem head?_along (node : Node) (positions : List Nat) :
    (along node positions).head? = some node := by
  cases positions <;> rfl

/-- The number of the command at the end of a way. -/
def lastCommand (way : List Node) : Option NodeId :=
  way.getLast?.bind fun node =>
    match node with
    | .command ending => some ending.id
    | _ => none

/-- The last node of a way to a command is that command. -/
theorem exists_ending {way : List Node} {id : NodeId} (ends : lastCommand way = some id) :
    ∃ ending : Command, way.getLast? = some (.command ending) ∧ ending.id = id := by
  obtain ⟨node, last, same⟩ := Option.bind_eq_some_iff.mp ends
  split at same
  · exact ⟨_, last, Option.some.inj same⟩
  · cases same

/-- The only node below a root is an environment with an `\end` below it that is reported. -/
theorem exists_unmatched (document : Document) (positions : List Nat) (id : NodeId) (name : Text)
    (below : document.root.children.map (fun node =>
      (node.isEnvironment, lastCommand (along node positions))) = [(true, some id)])
    (reported : ∃ diagnostic ∈ document.diagnostics, diagnostic.node = some id ∧
      diagnostic.message = (Problem.unmatchedEnd name).message) :
    ∃ environment ending, document.root.children = [environment] ∧
      environment.isEnvironment = true ∧ environment ∈ document.walk ∧
      (along environment positions).getLast? = some (.command ending) ∧
      document.ReportsUnmatched ending := by
  obtain ⟨environment, only, facts⟩ := List.map_eq_singleton_iff.mp below
  obtain ⟨region, last⟩ := Prod.mk.inj facts
  obtain ⟨ending, ends, rfl⟩ := exists_ending last
  obtain ⟨diagnostic, listed, place, message⟩ := reported
  exact ⟨environment, ending, only, region,
    Node.mem_walk_of_mem_children (Node.mem_walk _) (only ▸ List.mem_singleton_self environment),
    ends, diagnostic, listed, place, name, message⟩

theorem guarded_bracedEnding :
    ∃ environment way ending, environment.isEnvironment = true ∧
      environment ∈ (ofTokens bracedEnding (Token.rawText bracedEnding) 0 .standard).walk ∧
      Node.IsWay way ∧ way.head? = some environment ∧ way.getLast? = some (.command ending) ∧
      (ofTokens bracedEnding (Token.rawText bracedEnding) 0 .standard).ReportsUnmatched ending ∧
      Node.Guarded way := by
  obtain ⟨environment, ending, -, region, inside, ends, reported⟩ := exists_unmatched
    (ofTokens bracedEnding (Token.rawText bracedEnding) 0 .standard) [1, 0] 5 "a"
    (by decide +kernel) (by decide +kernel)
  have descends := isWay_along environment [1, 0]
  have starts := head?_along environment [1, 0]
  exact ⟨environment, along environment [1, 0], ending, region, inside, descends, starts, ends,
    reported, guarded_of_reportsUnmatched region inside descends starts ends reported⟩

/-- An optional argument of a `\begin` that is not closed. -/
def unclosedPlacement : List Token :=
  tokenOf (.controlWord "begin") :: (labelOf "figure" ++
    tokenOf (.character (.char '[') .other) :: tokenOf (.character (.char 'h') .letter) ::
      tokenOf (.controlWord "end") :: labelOf "figure")

/-- The optional argument of a `\begin` takes the `\end` of its environment. -/
theorem unbraced_unclosedPlacement :
    ∃ environment way ending, environment.isEnvironment = true ∧
      environment ∈ (ofTokens unclosedPlacement (Token.rawText unclosedPlacement) 0
        .standard).walk ∧
      Node.IsWay way ∧ way.head? = some environment ∧ way.getLast? = some (.command ending) ∧
      (ofTokens unclosedPlacement (Token.rawText unclosedPlacement) 0
        .standard).ReportsUnmatched ending ∧
      ∀ node ∈ way, node.isGroupIn .brace = false := by
  obtain ⟨environment, ending, only, region, inside, ends, reported⟩ := exists_unmatched
    (ofTokens unclosedPlacement (Token.rawText unclosedPlacement) 0 .standard) [0, 1, 1] 15 "figure"
    (by decide +kernel) (by decide +kernel)
  have unbraced : ∀ root ∈ (ofTokens unclosedPlacement (Token.rawText unclosedPlacement) 0
      .standard).root.children, ∀ node ∈ along root [0, 1, 1], node.isGroupIn .brace = false := by
    decide +kernel
  exact ⟨environment, along environment [0, 1, 1], ending, region, inside,
    isWay_along environment [0, 1, 1], head?_along environment [0, 1, 1], ends, reported,
    unbraced environment (only ▸ List.mem_singleton_self environment)⟩

end Document

end TexSource
