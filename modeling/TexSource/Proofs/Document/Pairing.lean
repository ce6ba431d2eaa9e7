import Mathlib.Data.List.Nodup
import TexSource.Proofs.Document.BraceStack

/-!
# Groups pair braces

Every part of a document is built from braces that match (`Matched`): its groups are the pairs,
the braces that no group takes are stray, and nothing is left behind a brace that still waits.
Groups add a pair and formulas, optional arguments and environments add nothing, so that by
induction all that is read has this property (`Parser.Reads.matched`).
-/

namespace TexSource

section

variable (commands : CommandTable)

mutual

/-- The tokens under a node, without those of verbatim bodies. -/
def Node.code : Node → List Placed
  | .leaf _ placed => [placed]
  | .group _ _ opener children closer _ => opener.toList ++ codeAll children ++ closer.toList
  | .math _ _ opener children closer _ => opener :: codeAll children ++ closer.toList
  | .command invocation => invocation.code
  | .environment _ name opening body none _ _ =>
    opening.code ++ (if commands.isVerbatim name then [] else codeAll body)
  | .environment _ name opening body (some ending) _ _ =>
    opening.code ++ (if commands.isVerbatim name then [] else codeAll body) ++ ending.code
  | .inclusion _ directive _ _ _ _ => directive.code

/-- The tokens of a command outside of verbatim bodies. -/
def Command.code : Command → List Placed
  | ⟨_, _, head, star, arguments, _⟩ => head :: star.toList ++ codeArguments arguments

/-- The tokens of nodes outside of verbatim bodies. -/
def codeAll : List Node → List Placed
  | [] => []
  | node :: rest => node.code ++ codeAll rest

/-- The tokens of arguments outside of verbatim bodies. -/
def codeArguments : List Argument → List Placed
  | [] => []
  | ⟨_, leading, content⟩ :: rest => codeAll leading ++ content.code ++ codeArguments rest

end

variable {commands}

theorem Node.code_environment (id : NodeId) (name : Text) (opening : Command) (body : List Node)
    (ending : Option Command) (matched : Bool) (span : Span) :
    (Node.environment id name opening body ending matched span).code commands =
      opening.code commands ++ (if commands.isVerbatim name then [] else codeAll commands body) ++
        ending.toList.flatMap (·.code commands) := by
  cases ending with
  | none => simp [Node.code]
  | some ending => simp [Node.code]

mutual

/-- The tokens outside of verbatim bodies are among all of the node, in their order. -/
theorem Node.code_sublist_placed : (node : Node) → (node.code commands).Sublist node.placed
  | .leaf _ placed => .refl _
  | .group _ _ opener children closer _ =>
    ((List.Sublist.refl _).append (codeAll_sublist_placedAll children)).append (.refl _)
  | .math _ _ opener children closer _ =>
    ((codeAll_sublist_placedAll children).cons_cons opener).append (.refl _)
  | .command invocation => invocation.code_sublist_placed
  | .environment _ name opening body none _ _ => by
    have inside : (if commands.isVerbatim name then [] else codeAll commands body).Sublist
        (placedAll body) := by
      split
      · exact List.nil_sublist _
      · exact codeAll_sublist_placedAll body
    exact opening.code_sublist_placed.append inside
  | .environment _ name opening body (some ending) _ _ => by
    have inside : (if commands.isVerbatim name then [] else codeAll commands body).Sublist
        (placedAll body) := by
      split
      · exact List.nil_sublist _
      · exact codeAll_sublist_placedAll body
    exact (opening.code_sublist_placed.append inside).append ending.code_sublist_placed
  | .inclusion _ directive _ _ _ _ => directive.code_sublist_placed

theorem Command.code_sublist_placed : (invocation : Command) →
    (invocation.code commands).Sublist invocation.placed
  | ⟨_, _, _, _, arguments, _⟩ =>
    (List.Sublist.refl _).append (codeArguments_sublist_placedArguments arguments)

theorem codeAll_sublist_placedAll : (nodes : List Node) →
    (codeAll commands nodes).Sublist (placedAll nodes)
  | [] => .slnil
  | node :: rest => node.code_sublist_placed.append (codeAll_sublist_placedAll rest)

theorem codeArguments_sublist_placedArguments : (arguments : List Argument) →
    (codeArguments commands arguments).Sublist (placedArguments arguments)
  | [] => .slnil
  | ⟨_, leading, content⟩ :: rest =>
    ((codeAll_sublist_placedAll leading).append content.code_sublist_placed).append
      (codeArguments_sublist_placedArguments rest)

end

end

namespace Parser

/-- The tokens of a piece, without those of verbatim bodies. -/
@[simp] def Piece.code (commands : CommandTable) : Piece → List Placed
  | .sequence _ nodes => codeAll commands nodes
  | .node content => content.code commands
  | .bracket content => content.code commands
  | .command invocation => invocation.code commands
  | .arguments _ _ _ found => codeArguments commands found
  | .opening invocation _ => invocation.code commands
  | .ending invocation _ => invocation.code commands
  | .body name nodes => if commands.isVerbatim name then [] else codeAll commands nodes
  | .behindBody found => found.toList.flatMap fun found => found.1.code commands

end Parser

/-- A closing brace in text that belongs to no group, by its number. -/
def Role.stray : Role × Node → Option (NodeId × Placed)
  | (role, .leaf id placed) =>
    if role = .text && placed.token.isEndGroup then some (id, placed) else none
  | _ => none

/-- The opening brace of a group and its closing brace are a pair, and the opening brace of an
unfinished group waits. -/
def Braces.Has (braces : Braces) : Node → Prop
  | .group _ .brace opener _ closer _ =>
    ∃ placed, opener = some placed ∧ placed.token.isBeginGroup = true ∧
      (∀ other, closer = some other → (placed, other) ∈ braces.pairs) ∧
      (closer = none → placed ∈ braces.waiting)
  | _ => True

/-- With more pairs and more waiting braces, no fewer nodes have theirs. -/
theorem Braces.Has.mono {braces wider : Braces} {node : Node} (has : braces.Has node)
    (pairs : braces.pairs ⊆ wider.pairs) (waiting : braces.waiting ⊆ wider.waiting) :
    wider.Has node := by
  unfold Braces.Has at has ⊢
  split at has
  · obtain ⟨placed, same, opens, closed, unclosed⟩ := has
    exact ⟨placed, same, opens, fun other present => pairs (closed other present),
      fun none => waiting (unclosed none)⟩
  · trivial

/-- The other braces tell how a group is closed, if every opening brace is read once. -/
theorem Braces.Has.exact {braces : Braces} {id : NodeId} {opener : Option Placed}
    {children : List Node} {closer : Option Placed} {span : Span}
    (has : braces.Has (.group id .brace opener children closer span))
    (distinct : braces.openers.Nodup) :
    ∃ placed, opener = some placed ∧ placed.token.isBeginGroup = true ∧
      (∀ other, closer = some other ↔ (placed, other) ∈ braces.pairs) ∧
      (closer = none ↔ placed ∈ braces.waiting) := by
  obtain ⟨placed, same, opens, closed, unclosed⟩ := has
  obtain ⟨once, -, apart⟩ := List.nodup_append.mp distinct
  have never : ∀ other, (placed, other) ∈ braces.pairs → placed ∉ braces.waiting :=
    fun other pair waits => apart placed (List.mem_map_of_mem pair) placed waits rfl
  refine ⟨placed, same, opens, fun other => ⟨closed other, fun pair => ?_⟩, unclosed,
    fun waits => ?_⟩
  · cases present : closer with
    | none => exact absurd (unclosed present) (never other pair)
    | some last =>
      have equal := List.inj_on_of_nodup_map once (closed last present) pair rfl
      rw [(Prod.mk.inj equal).2]
  · cases present : closer with
    | none => rfl
    | some last => exact absurd waits (never last (closed last present))

/-- The tokens of a node itself. -/
def Node.marks : Node → List Placed
  | .leaf _ placed => [placed]
  | .group _ _ opener _ closer _ => opener.toList ++ closer.toList
  | .math _ _ opener _ closer _ => opener :: closer.toList
  | .command invocation => invocation.head :: invocation.star.toList
  | _ => []

/-- Only groups in braces have braces of their own; other braces are leaves, and in text such a
leaf is a closing brace. A group that is kept flat has leaves only. -/
def Role.Proper : Role × Node → Prop
  | (role, .leaf _ placed) =>
    role = .flattened ∨ role = .verbatim ∨ role = .text ∧ placed.token.isBeginGroup = false
  | (role, .group _ .brace opener _ closer _) =>
    role ≠ .flattened ∧ (∀ placed ∈ opener, placed.token.isBeginGroup = true) ∧
      ∀ placed ∈ closer, placed.token.isEndGroup = true
  | (role, node) => role ≠ .flattened ∧ ∀ placed ∈ node.marks, placed.token.isBrace = false

/-- A brace of a node outside of verbatim bodies opens or closes a group, or the node is a leaf:
one of a group that is kept flat, or a closing brace in text. -/
theorem Role.brace_of_proper {role : Role} {node : Node} (proper : Role.Proper (role, node))
    (other : role ≠ .verbatim) {placed : Placed} (own : placed ∈ node.marks)
    (brace : placed.token.isBrace = true) :
    (∃ id opener children closer span, node = .group id .brace opener children closer span ∧
      (opener = some placed ∧ placed.token.isBeginGroup = true ∨
        closer = some placed ∧ placed.token.isEndGroup = true)) ∨
    (∃ id, (role, node) = (.flattened, .leaf id placed)) ∨
    ∃ id, (role, node) = (.text, .leaf id placed) ∧ placed.token.isBeginGroup = false := by
  cases node with
  | leaf id token =>
    obtain rfl := List.mem_singleton.mp own
    rcases proper with rfl | rfl | ⟨rfl, closes⟩
    · exact .inr (.inl ⟨id, rfl⟩)
    · exact absurd rfl other
    · exact .inr (.inr ⟨id, rfl, closes⟩)
  | group id delimiter opener children closer span =>
    cases delimiter with
    | brace =>
      obtain ⟨-, opens, closes⟩ := proper
      rcases List.mem_append.mp own with own | own
      · have same := Option.mem_toList.mp own
        exact .inl ⟨id, opener, children, closer, span, rfl, .inl ⟨same, opens _ same⟩⟩
      · have same := Option.mem_toList.mp own
        exact .inl ⟨id, opener, children, closer, span, rfl, .inr ⟨same, closes _ same⟩⟩
    | bracket => exact absurd brace (by simp [proper.2 placed own])
    | root => exact absurd brace (by simp [proper.2 placed own])
  | math | command => exact absurd brace (by simp [proper.2 placed own])
  | environment | inclusion => cases own

/-- The nodes of a group that is kept flat are leaves. -/
theorem Role.leaf_of_proper {node : Node} (proper : Role.Proper (.flattened, node)) :
    ∃ id placed, node = .leaf id placed := by
  cases node with
  | leaf id placed => exact ⟨id, placed, rfl⟩
  | group id delimiter => cases delimiter <;> exact absurd rfl proper.1
  | math | command | environment | inclusion => exact absurd rfl proper.1

/-- A node in a role that is neither a group in braces nor a stray brace. -/
structure Role.Plain (entry : Role × Node) : Prop where
  group : ∀ braces : Braces, braces.Has entry.2
  stray : Role.stray entry = none
  proper : Role.Proper entry

namespace Role

variable {role : Role}

/-- A leaf without a brace is plain. -/
theorem plain_leaf (id : NodeId) {placed : Placed}
    (other : role = .verbatim ∨ role = .text ∧ placed.token.isBrace = false) :
    Plain (role, .leaf id placed) := by
  refine ⟨fun _ => trivial, ?_, .inr (other.imp_right fun text =>
    ⟨text.1, (Token.isBrace_eq_false_iff.mp text.2).1⟩)⟩
  rcases other with rfl | ⟨rfl, other⟩
  · rfl
  · simp [Role.stray, (Token.isBrace_eq_false_iff.mp other).2]

variable (role)

/-- A command is plain if no token of its own is a brace. -/
theorem plain_command (deep : role ≠ .flattened) {invocation : Command}
    (marks : ∀ placed ∈ (Node.command invocation).marks, placed.token.isBrace = false) :
    Plain (role, .command invocation) :=
  ⟨fun _ => trivial, rfl, deep, marks⟩

/-- A group in brackets is plain if no token of its own is a brace. -/
theorem plain_bracket (deep : role ≠ .flattened) (id : NodeId) {opener : Placed}
    (children : List Node) {closer : Option Placed} (span : Span)
    (opens : opener.token.isBrace = false)
    (closes : ∀ placed ∈ closer.toList, placed.token.isBrace = false) :
    Plain (role, .group id .bracket (some opener) children closer span) :=
  ⟨fun _ => trivial, rfl, deep, List.forall_mem_cons.mpr ⟨opens, closes⟩⟩

/-- A formula is plain if no token of its own is a brace. -/
theorem plain_math (deep : role ≠ .flattened) (id : NodeId) (display : Bool) {opener : Placed}
    (children : List Node) {closer : Option Placed} (span : Span)
    (opens : opener.token.isBrace = false)
    (closes : ∀ placed ∈ closer.toList, placed.token.isBrace = false) :
    Plain (role, .math id display opener children closer span) :=
  ⟨fun _ => trivial, rfl, deep, List.forall_mem_cons.mpr ⟨opens, closes⟩⟩

/-- An environment has no token of its own. -/
theorem plain_environment (deep : role ≠ .flattened) (id : NodeId) (name : Text)
    (opening : Command) (body : List Node) (ending : Option Command) (matched : Bool)
    (span : Span) :
    Plain (role, .environment id name opening body ending matched span) :=
  ⟨fun _ => trivial, rfl, deep, List.forall_mem_nil _⟩

end Role

/-- Nodes are built from code in which braces match: the groups among them are the pairs, and
the stray braces are those that no group takes. If a brace still waits, nothing is left. -/
structure Matched (inGroup : Bool) (code : List Placed) (located : List (Role × Node))
    (after : List Token) : Prop where
  groups : ∀ entry ∈ located, (Braces.of code).Has entry.2
  proper : ∀ entry ∈ located, Role.Proper entry
  stray : (Braces.of code).stray = (located.filterMap Role.stray).map Prod.snd
  enclosed : inGroup = true → (Braces.of code).stray = []
  finished : (Braces.of code).waiting ≠ [] → after = []

namespace Matched

variable {inGroup : Bool} {code others : List Placed} {located more : List (Role × Node)}
  {middle after : List Token}

/-- Tokens that are no braces, and nodes that neither are groups nor stray braces. -/
theorem quiet (tokens : ∀ placed ∈ code, placed.token.isBrace = false)
    (nodes : ∀ entry ∈ located, Role.Plain entry) (after : List Token) :
    Matched inGroup code located after := by
  have empty : Braces.of code = ⟨[], [], []⟩ := Braces.readAll_quiet tokens
  have none : located.filterMap Role.stray = [] :=
    List.filterMap_eq_nil_iff.mpr fun entry member => (nodes entry member).stray
  constructor
  case groups => exact fun entry member => (nodes entry member).group _
  case proper => exact fun entry member => (nodes entry member).proper
  case stray => rw [empty, none, List.map_nil]
  case enclosed => exact fun _ => by rw [empty]
  case finished => exact fun waits => absurd (by rw [empty]) waits

theorem nil (after : List Token) : Matched inGroup [] [] after :=
  quiet (by simp) (by simp) after

/-- A node that is neither a group nor a stray brace may stand behind. -/
theorem snoc (matched : Matched inGroup code located after) {entry : Role × Node}
    (plain : Role.Plain entry) :
    Matched inGroup code (located ++ [entry]) after where
  groups := List.forall_mem_append.mpr
    ⟨matched.groups, List.forall_mem_singleton.mpr (plain.group _)⟩
  proper := List.forall_mem_append.mpr
    ⟨matched.proper, List.forall_mem_singleton.mpr plain.proper⟩
  stray := by
    rw [Parser.filterMap_concat, plain.stray, Option.toList_none, List.append_nil]
    exact matched.stray
  enclosed := matched.enclosed
  finished := matched.finished

/-- Tokens that are no braces may stand in front, with their nodes. -/
theorem prepend (front : ∀ placed ∈ others, placed.token.isBrace = false)
    (nodes : ∀ entry ∈ more, Role.Plain entry) (matched : Matched inGroup code located after) :
    Matched inGroup (others ++ code) (more ++ located) after := by
  have same : Braces.of (others ++ code) = Braces.of code := by
    rw [Braces.of, Braces.readAll_append, Braces.readAll_quiet front, ← Braces.of]
  have none : more.filterMap Role.stray = [] :=
    List.filterMap_eq_nil_iff.mpr fun entry member => (nodes entry member).stray
  constructor
  case groups =>
    exact List.forall_mem_append.mpr
      ⟨fun entry member => (nodes entry member).group _, same ▸ matched.groups⟩
  case proper =>
    exact List.forall_mem_append.mpr
      ⟨fun entry member => (nodes entry member).proper, matched.proper⟩
  case stray => rw [same, matched.stray, List.filterMap_append, none, List.nil_append]
  case enclosed => exact same ▸ matched.enclosed
  case finished => exact same ▸ matched.finished

/-- Tokens without braces before do not matter. -/
theorem prependTokens (front : ∀ placed ∈ others, placed.token.isBrace = false)
    (matched : Matched inGroup code located after) :
    Matched inGroup (others ++ code) located after :=
  .prepend front (List.forall_mem_nil _) matched

theorem cons {placed : Placed} (other : placed.token.isBrace = false)
    (matched : Matched inGroup code located after) :
    Matched inGroup (placed :: code) located after :=
  .prependTokens (List.forall_mem_singleton.mpr other) matched

/-- Tokens that are no braces may stand behind. -/
theorem extend (matched : Matched inGroup code located middle)
    (behind : ∀ placed ∈ others, placed.token.isBrace = false)
    (ends : middle = [] → after = []) : Matched inGroup (code ++ others) located after := by
  have same : Braces.of (code ++ others) = Braces.of code := by
    rw [Braces.of, Braces.readAll_append, Braces.readAll_quiet behind, ← Braces.of]
  constructor
  case groups => exact same ▸ matched.groups
  case proper => exact matched.proper
  case stray => exact same ▸ matched.stray
  case enclosed => exact same ▸ matched.enclosed
  case finished => exact fun waits => ends (matched.finished (same ▸ waits))

/-- Parts of a document that follow each other; nothing is read behind the end. -/
theorem append (first : Matched inGroup code located middle)
    (second : Matched inGroup others more after)
    (nothing : middle = [] → others = [] ∧ more = [] ∧ after = []) :
    Matched inGroup (code ++ others) (located ++ more) after := by
  by_cases waits : (Braces.of code).waiting = []
  · have both : Braces.of (code ++ others) = _ := Braces.of_append (.inl waits)
    constructor
    case groups =>
      intro entry member
      rw [both]
      rcases List.mem_append.mp member with member | member
      · exact (first.groups entry member).mono (List.subset_append_left ..)
          (List.subset_append_right ..)
      · exact (second.groups entry member).mono (List.subset_append_right ..)
          (List.subset_append_left ..)
    case proper => exact List.forall_mem_append.mpr ⟨first.proper, second.proper⟩
    case stray => rw [both, List.filterMap_append, List.map_append, first.stray, second.stray]
    case enclosed =>
      intro within
      rw [both, first.enclosed within, second.enclosed within, List.append_nil]
    case finished =>
      rw [both, waits, List.append_nil]
      exact second.finished
  · obtain ⟨rfl, rfl, rfl⟩ := nothing (first.finished waits)
    rw [List.append_nil, List.append_nil]
    exact ⟨first.groups, first.proper, first.stray, first.enclosed, fun _ => rfl⟩

/-- A closing brace outside of all groups. -/
theorem strayBrace {id : NodeId} {placed : Placed} (ends : placed.token.isEndGroup = true)
    (outside : inGroup = false) (after : List Token) :
    Matched inGroup [placed] [(.text, .leaf id placed)] after := by
  have own : Braces.of [placed] = ⟨[], [], [placed]⟩ := Braces.read_stray ends rfl
  constructor
  case groups => exact List.forall_mem_singleton.mpr trivial
  case proper =>
    exact List.forall_mem_singleton.mpr
      (.inr (.inr ⟨rfl, Braces.isBeginGroup_of_isEndGroup ends⟩))
  case stray => simp [own, Role.stray, ends]
  case enclosed => exact fun within => absurd within (by simp [outside])
  case finished => exact fun waits => absurd (by rw [own]) waits

/-- A group reads its opening brace, its content, and the closing brace if the content does not
go on to the end. -/
theorem group (role : Role) (deep : role ≠ .flattened) {id : NodeId} {opener : Placed}
    {children : List Node} {closer : Option Placed} {span : Span}
    (opens : opener.token.isBeginGroup = true)
    (inside : Matched true code located middle)
    (halts : ∀ token ∈ middle.head?, token.isEndGroup = true)
    (closes : Parser.Takes Token.isEndGroup middle closer after) :
    Matched inGroup ([opener] ++ code ++ closer.toList)
      (located ++ [(role, .group id .brace (some opener) children closer span)]) after := by
  have own : Braces.of [opener] = ⟨[], [opener], []⟩ := Braces.read_opener opens
  have enclosed := inside.enclosed rfl
  have both : Braces.of ([opener] ++ code) = _ := Braces.of_append (.inr enclosed)
  simp only [own, enclosed, List.nil_append, List.append_nil] at both
  have none : (located ++ [(role, Node.group id .brace (some opener) children closer
      span)]).filterMap Role.stray = [] := by
    rw [Parser.filterMap_concat, ← List.map_eq_nil_iff, List.map_append, ← inside.stray, enclosed]
    rfl
  cases closes with
  | @taken placed _ passes =>
    have done : (Braces.of code).waiting = [] := by
      by_contra waits
      cases inside.finished waits
    rw [done, List.nil_append] at both
    have whole : Braces.of ([opener] ++ code ++ [placed]) =
        ⟨(Braces.of code).pairs ++ [(opener, placed)], [], []⟩ := by
      rw [Braces.of, Braces.readAll_append, ← Braces.of, both]
      exact Braces.read_closer passes rfl
    constructor
    case groups =>
      intro entry member
      rw [Option.toList_some, whole]
      rcases List.mem_append.mp member with member | member
      · refine (inside.groups entry member).mono (List.subset_append_left ..) ?_
        rw [done]
        exact List.nil_subset _
      · obtain rfl := List.mem_singleton.mp member
        exact ⟨opener, rfl, opens, by simp, by simp⟩
    case proper =>
      exact List.forall_mem_append.mpr
        ⟨inside.proper, List.forall_mem_singleton.mpr
          ⟨deep, by simpa using opens, by simpa using passes⟩⟩
    case stray => rw [Option.toList_some, whole, none, List.map_nil]
    case enclosed => exact fun _ => by rw [Option.toList_some, whole]
    case finished => exact fun waits => absurd (by rw [Option.toList_some, whole]) waits
  | left fails =>
    have last : middle = [] := by
      cases middle with
      | nil => rfl
      | cons token rest => exact absurd (halts token rfl) (by simpa using fails)
    rw [Option.toList_none, List.append_nil]
    constructor
    case groups =>
      intro entry member
      rw [both]
      rcases List.mem_append.mp member with member | member
      · exact (inside.groups entry member).mono (List.Subset.refl _) (List.subset_append_left ..)
      · obtain rfl := List.mem_singleton.mp member
        exact ⟨opener, rfl, opens, by simp, fun _ => List.mem_append_right _ List.mem_cons_self⟩
    case proper =>
      exact List.forall_mem_append.mpr
        ⟨inside.proper, List.forall_mem_singleton.mpr ⟨deep, by simpa using opens, by simp⟩⟩
    case stray => rw [both, none, List.map_nil]
    case enclosed => exact fun _ => by rw [both]
    case finished => exact fun _ => last

end Matched

namespace Parser

variable {commands : CommandTable} {level : Nat} {mode : Mode} {role : Role}
  {ahead after : List Token} {piece : Piece} {reports : List Report} {invocation : Command}

/-- A sequence of nodes is read up to a token that ends it. -/
theorem Reads.halts {closing : Closing} {nodes : List Node}
    (read : Reads commands level mode ahead (.sequence closing nodes) after reports) :
    Halts closing mode after := by
  generalize whole : Piece.sequence closing nodes = piece at read
  induction read generalizing nodes with
  | stop halts =>
    cases whole
    exact halts
  | next _ _ _ _ later =>
    cases whole
    exact later rfl
  | _ => cases whole

/-- At the end nothing is read. -/
theorem Reads.nothing (read : Reads commands level mode ahead piece after reports)
    (ends : ahead = []) :
    piece.code commands = [] ∧ piece.located commands level = [] ∧ after = [] := by
  induction read with
  | stop => exact ⟨rfl, rfl, ends⟩
  | noArguments => exact ⟨rfl, rfl, ends⟩
  | omitted _ _ ih => exact ih ends
  | optional _ _ read => subst ends; cases read
  | missing => exact ⟨rfl, rfl, ends⟩
  | braced _ opens => subst ends; cases opens
  | single _ stands => subst ends; cases stands
  | verbatimBody verbatim leaves =>
    subst ends
    rw [List.take_nil] at leaves
    cases leaves
    exact ⟨if_pos verbatim, rfl, List.drop_nil⟩
  | textBody _ text _ ih => simpa [CommandTable.bodyRole, text] using ih ends
  | unended => exact ⟨rfl, rfl, ends⟩
  | ended read => subst ends; cases read
  | strayEnding _ read => subst ends; cases read
  | environment _ opened => subst ends; cases opened
  | _ => cases ends

variable (commands) in
/-- Leaves are all code. -/
theorem code_leaves {tokens : List Token} {nodes : List Node} (leaves : Leaves tokens nodes) :
    (codeAll commands nodes).map Placed.token = tokens := by
  induction leaves with
  | nil => rfl
  | cons id placed _ ih => rw [codeAll, List.map_append, ih, Node.code]; rfl

theorem matched_leaf {inGroup : Bool} (id : NodeId) {placed : Placed}
    (other : placed.token.isBrace = false) (after : List Token) :
    Matched inGroup [placed] [(.text, .leaf id placed)] after := by
  exact ((Matched.nil after).cons other).snoc (Role.plain_leaf id (.inr ⟨rfl, other⟩))

/-- An argument, with skipped tokens before it. -/
theorem matched_argument {inGroup : Bool} (kind : ArgumentKind) {tokens middle : List Token}
    {leading : List Node} {content : Node} {found : List Argument} (leaves : Leaves tokens leading)
    (skipped : ∀ token ∈ tokens, isSkipped token = true)
    (first : Matched inGroup (content.code commands) (content.located commands level .text) middle)
    (later : Matched inGroup (codeArguments commands found)
      (locatedArguments commands level found) after)
    (nothing : middle = [] → codeArguments commands found = [] ∧
      locatedArguments commands level found = [] ∧ after = []) :
    Matched inGroup (codeArguments commands (⟨kind, leading, content⟩ :: found))
      (locatedArguments commands level (⟨kind, leading, content⟩ :: found)) after := by
  rw [codeArguments, locatedArguments_cons, List.append_assoc, List.append_assoc]
  refine .prepend ?_ ?_ (first.append later nothing)
  · intro placed member
    exact isBrace_of_isSkipped (skipped _
      (code_leaves commands leaves ▸ List.mem_map_of_mem member))
  · intro entry member
    obtain ⟨id, placed, rfl, inside⟩ := locatedAll_leaves commands level .text leaves entry member
    exact Role.plain_leaf id (.inr ⟨rfl, isBrace_of_isSkipped (skipped _ inside)⟩)

/-- In a group that is kept flat no closing brace is stray, and none of its braces waits when its
own closing brace is found. -/
theorem readAll_flat {depth : Nat} {rest : List Token} {code : List Placed} {braces : Braces}
    (tokens : code.map Placed.token = rest.take (flatLength depth rest))
    (deep : braces.waiting.length = depth) :
    (braces.readAll code).stray = braces.stray ∧
      (rest.drop (flatLength depth rest) ≠ [] → (braces.readAll code).waiting = []) := by
  fun_induction flatLength depth rest generalizing code braces with
  | case1 =>
    obtain rfl := List.map_eq_nil_iff.mp tokens
    exact ⟨rfl, fun left => absurd rfl left⟩
  | case2 =>
    obtain rfl := List.map_eq_nil_iff.mp tokens
    exact ⟨rfl, fun _ => List.length_eq_zero_iff.mp deep⟩
  | case3 token rest ends outer ih =>
    obtain ⟨placed, code, rfl, rfl, later⟩ := List.map_eq_cons_iff.mp tokens
    obtain ⟨opener, waiting, waits⟩ := List.exists_cons_of_length_eq_add_one deep
    rw [Braces.readAll_cons, Braces.read_closer ends waits]
    exact ih later (by simpa [waits] using deep)
  | case4 depth token rest ends begins ih =>
    obtain ⟨placed, code, rfl, rfl, later⟩ := List.map_eq_cons_iff.mp tokens
    rw [Braces.readAll_cons, Braces.read_opener begins]
    exact ih later (by simpa using deep)
  | case5 depth token rest ends begins ih =>
    obtain ⟨placed, code, rfl, rfl, later⟩ := List.map_eq_cons_iff.mp tokens
    rw [Braces.readAll_cons, Braces.read_other (by simp [Token.isBrace, ends, begins])]
    exact ih later deep

/-- The content of a group that is kept flat. -/
theorem matched_flat {rest : List Token} {nodes : List Node}
    (leaves : Leaves (rest.take (flatLength 0 rest)) nodes) :
    Matched true (codeAll commands nodes) (locatedAll commands level .flattened nodes)
      (rest.drop (flatLength 0 rest)) := by
  have deep : (⟨[], [], []⟩ : Braces).waiting.length = 0 := rfl
  obtain ⟨stray, waiting⟩ := readAll_flat (code_leaves commands leaves) deep
  have entries := locatedAll_leaves commands level .flattened leaves
  have none : (locatedAll commands level .flattened nodes).filterMap Role.stray = [] := by
    refine List.filterMap_eq_nil_iff.mpr fun entry member => ?_
    obtain ⟨id, placed, rfl, -⟩ := entries entry member
    rfl
  constructor
  case groups =>
    intro entry member
    obtain ⟨id, placed, rfl, -⟩ := entries entry member
    trivial
  case proper =>
    intro entry member
    obtain ⟨id, placed, rfl, -⟩ := entries entry member
    exact .inl rfl
  case stray => rw [none, Braces.of, stray, List.map_nil]
  case enclosed => exact fun _ => stray
  case finished => exact fun waits => by_contra fun left => waits (waiting left)

/-- A closer that is no brace is quiet. -/
theorem Takes.quiet {test : Token → Bool} {middle : List Token} {closer : Option Placed}
    (takes : Takes test middle closer after)
    (other : ∀ token, test token = true → token.isBrace = false) :
    ∀ placed ∈ closer.toList, placed.token.isBrace = false := by
  cases takes with
  | taken passes => simpa using other _ passes
  | left => simp

/-- At the end nothing is taken. -/
theorem Takes.nothing {test : Token → Bool} {middle : List Token} {closer : Option Placed}
    (takes : Takes test middle closer after) (ends : middle = []) : after = [] := by
  cases takes with
  | taken => cases ends
  | left => exact ends

/-- The tokens of a command itself are no braces. -/
theorem Reads.marks_command {token : Token} {rest : List Token}
    (read : Reads commands level mode (token :: rest) (.command invocation) after reports) :
    ∀ placed ∈ (Node.command invocation).marks, placed.token.isBrace = false := by
  cases read with
  | command _ _ sequence starred =>
    exact List.forall_mem_cons.mpr ⟨isBrace_of_isControlSequence sequence, starred.quiet
      fun _ passes => Token.isBrace_of_isCharacter (Bool.and_eq_true_iff.mp passes).2⟩

/-- A control word has no brace of its own. -/
theorem marks_word {id : NodeId} {name : Text} {head : Placed} {arguments : List Argument}
    {span : Span} (word : head.token.isControlWord name = true) :
    ∀ placed ∈ (Node.command ⟨id, name, head, none, arguments, span⟩).marks,
      placed.token.isBrace = false :=
  List.forall_mem_singleton.mpr
    (isBrace_of_isControlSequence (isControlSequence_of_isControlWord word))

/-- The begin of an environment has no brace of its own. -/
theorem Reads.marks_opening {name : Text}
    (read : Reads commands level mode ahead (.opening invocation name) after reports) :
    ∀ placed ∈ (Node.command invocation).marks, placed.token.isBrace = false := by
  cases read with
  | opening _ _ word => exact marks_word word

/-- The end of an environment has no brace of its own. -/
theorem Reads.marks_ending {name : Text}
    (read : Reads commands level mode ahead (.ending invocation name) after reports) :
    ∀ placed ∈ (Node.command invocation).marks, placed.token.isBrace = false := by
  cases read with
  | namedEnding _ _ word => exact marks_word word
  | namelessEnding _ _ word => exact marks_word word

/-- The closing brace of a group that is kept flat, or the end. -/
theorem head?_drop_flatLength (depth : Nat) (rest : List Token) :
    ∀ token ∈ (rest.drop (flatLength depth rest)).head?, token.isEndGroup = true := by
  fun_induction flatLength depth rest with
  | case1 => simp
  | case2 token rest ends =>
    intro first same
    cases same
    exact ends
  | case3 _ _ _ _ ih => exact ih
  | case4 _ _ _ _ _ ih => exact ih
  | case5 _ _ _ _ _ ih => exact ih

/-- **Braces match.** Whatever is read, its braces are matched as on a stack. -/
theorem Reads.matched (read : Reads commands level mode ahead piece after reports) :
    Matched mode.inGroup (piece.code commands) (piece.located commands level) after := by
  induction read with
  | stop => exact .nil _
  | next _ _ later ih ih' => exact ih.append ih' later.nothing
  | unopened _ _ _ ih => exact ih
  | group room opens inside closes ih =>
    rw [Piece.located, Node.located, contentRole_of_lt room]
    refine ih.group .text (by simp) opens ?_ closes
    intro token front
    simpa [endsBefore, Closing.isAt] using inside.halts token front
  | flatGroup deepest opens leaves closes =>
    subst deepest
    exact (matched_flat leaves).group .text (by simp) opens (head?_drop_flatLength 0 _) closes
  | strayGroupEnd ends outside =>
    exact .strayBrace ends outside _
  | strayEnding _ read ih =>
    rw [Piece.located, Node.located, Command.located_eq]
    exact ih.snoc (Role.plain_command .text (by simp) read.marks_ending)
  | @math _ _ _ _ closing _ _ _ _ middle _ _ _ _ opens _ _ closes ih =>
    have ends : middle = [] → _ = [] := fun ends => closes.nothing (closing.ahead_nil ends)
    have front := isBrace_of_opensMath opens
    have behind := closes.quiet fun _ => isBrace_of_isAt
    rw [Piece.located, Node.located]
    exact ((ih.extend behind ends).cons front).snoc
      (Role.plain_math .text (by simp) _ _ _ _ front behind)
  | @environment level _ _ name opening _ _ _ _ _ _ _ _ _ _ _ opened content ended head inside
      behind =>
    have plain : Role.Plain (.opening name, .command opening) :=
      Role.plain_command (.opening name) (by simp) opened.marks_opening
    have begun := head.snoc plain
    have parts := (begun.append inside content.nothing).append behind ended.nothing
    rw [Piece.located, Node.located_environment, Command.located_eq, Option.toList_map,
      List.flatMap_map, Piece.code, Node.code_environment, Option.toList_map, List.flatMap_map]
    exact parts.snoc (Role.plain_environment .text (by simp) ..)
  | nameless _ word _ read ih =>
    rw [Piece.located, Node.located, Command.located_eq]
    exact ih.snoc (Role.plain_command .text (by simp) read.marks_command)
  | plainCommand plain read ih =>
    rw [Piece.located, Node.located, Command.located_eq]
    exact ih.snoc (Role.plain_command .text (by simp) read.marks_command)
  | leaf _ plain => exact matched_leaf _ (isBrace_of_plain plain) _
  | command _ _ sequence starred _ ih =>
    have star := starred.quiet fun _ passes =>
      Token.isBrace_of_isCharacter (Bool.and_eq_true_iff.mp passes).2
    have behind := Matched.prependTokens star ih
    exact behind.cons (isBrace_of_isControlSequence sequence)
  | noArguments => exact .nil _
  | omitted _ _ ih => exact ih
  | optional _ leading _ later first ih =>
    exact matched_argument .optional leading (skipped_spacesAhead _) first ih later.nothing
  | bracket _ opens inside closes ih =>
    have front := Token.isBrace_of_isCharacter opens
    have behind := closes.quiet fun _ => Token.isBrace_of_isCharacter
    rw [Piece.located, Node.located, contentRole_bracket]
    exact ((ih.extend behind closes.nothing).cons front).snoc
      (Role.plain_bracket .text (by simp) _ _ _ front behind)
  | missing => exact .nil _
  | braced leading _ _ later first ih =>
    exact matched_argument .mandatory leading (skipped_gapAhead _ _) first ih later.nothing
  | single leading _ accepted unbraced later ih =>
    have other := Token.isBrace_eq_false_iff.mpr ⟨unbraced, isEndGroup_of_accepted accepted⟩
    exact matched_argument .mandatory leading (skipped_gapAhead _ _) (matched_leaf _ other _) ih
      later.nothing
  | opening _ _ word leading _ _ _ later first ih =>
    have argument :=
      matched_argument .mandatory leading (skipped_spacesAhead _) first ih later.nothing
    exact argument.cons (isBrace_of_isControlSequence (isControlSequence_of_isControlWord word))
  | @namedEnding level mode _ _ _ _ _ _ after _ word leading _ _ ih =>
    have none : Matched mode.inGroup (codeArguments commands [])
        (locatedArguments commands level []) after := .nil after
    have argument := matched_argument .mandatory leading (skipped_spacesAhead _) ih none
      fun ends => ⟨rfl, rfl, ends⟩
    exact argument.cons (isBrace_of_isControlSequence (isControlSequence_of_isControlWord word))
  | namelessEnding _ _ word _ =>
    exact (Matched.nil _).cons
      (isBrace_of_isControlSequence (isControlSequence_of_isControlWord word))
  | @verbatimBody level _ name body _ verbatim leaves =>
    rw [Piece.code, if_pos verbatim]
    refine .quiet (List.forall_mem_nil _) ?_ _
    intro entry member
    rw [Piece.located, CommandTable.bodyRole, if_pos verbatim] at member
    obtain ⟨id, placed, rfl, -⟩ :=
      locatedAll_leaves commands (level + 1) .verbatim leaves entry member
    exact Role.plain_leaf id (.inl rfl)
  | textBody _ text _ ih => simpa [CommandTable.bodyRole, text] using ih
  | unended => exact .nil _
  | @ended level _ invocation _ _ _ _ read ih =>
    have plain : Role.Plain (.ending, .command invocation) :=
      Role.plain_command .ending (by simp) read.marks_ending
    simpa [Command.located_eq] using ih.snoc plain

end Parser

end TexSource
