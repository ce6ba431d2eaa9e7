import TexSource.Proofs.Document.Defects
import TexSource.Proofs.Document.Pairing

/-!
# Braces always win

The groups of a document pair its braces as a stack does, outside of verbatim bodies, and the
stray braces are those that are reported (`Document.braces_ofTokens`). Unfinished formulas,
optional arguments and environments neither take a brace nor lose one.
-/

namespace TexSource

/-- A token belongs to one of the nodes, and not as one of a verbatim body. -/
def Marked (located : List (Role × Node)) (placed : Placed) : Prop :=
  ∃ entry ∈ located, entry.1 ≠ .verbatim ∧ placed ∈ entry.2.marks

namespace Marked

variable {located more : List (Role × Node)} {placed : Placed} {role : Role} {node : Node}

theorem left (marked : Marked located placed) : Marked (located ++ more) placed := by
  obtain ⟨entry, found, rest⟩ := marked
  exact ⟨entry, List.mem_append_left more found, rest⟩

theorem right (marked : Marked more placed) : Marked (located ++ more) placed := by
  obtain ⟨entry, found, rest⟩ := marked
  exact ⟨entry, List.mem_append_right located found, rest⟩

theorem last (other : role ≠ .verbatim) (own : placed ∈ node.marks) :
    Marked (located ++ [(role, node)]) placed :=
  right ⟨_, List.mem_cons_self, other, own⟩

/-- An opening brace opens a group, or is a leaf of a group that is kept flat. -/
theorem opener (marked : Marked located placed) (proper : ∀ entry ∈ located, Role.Proper entry)
    (opens : placed.token.isBeginGroup = true) :
    (∃ role id children closer span,
      (role, .group id .brace (some placed) children closer span) ∈ located) ∨
      ∃ id, (.flattened, .leaf id placed) ∈ located := by
  obtain ⟨⟨role, node⟩, found, other, own⟩ := marked
  have brace : placed.token.isBrace = true := by simp [Token.isBrace, opens]
  rcases Role.brace_of_proper (proper _ found) other own brace with
    ⟨id, opener, children, closer, span, rfl, ⟨rfl, -⟩ | ⟨-, closes⟩⟩ | ⟨id, same⟩ |
      ⟨id, -, closes⟩
  · exact .inl ⟨role, id, children, closer, span, found⟩
  · exact absurd opens (by simp [Braces.isBeginGroup_of_isEndGroup closes])
  · exact .inr ⟨id, same ▸ found⟩
  · exact absurd opens (by simp [closes])

/-- A closing brace closes a group, is a leaf of a group that is kept flat, or is stray. -/
theorem closer (marked : Marked located placed) (proper : ∀ entry ∈ located, Role.Proper entry)
    (closes : placed.token.isEndGroup = true) :
    (∃ role id opener children span,
      (role, .group id .brace opener children (some placed) span) ∈ located) ∨
      (∃ id, (.flattened, .leaf id placed) ∈ located) ∨
      placed ∈ (located.filterMap Role.stray).map Prod.snd := by
  obtain ⟨⟨role, node⟩, found, other, own⟩ := marked
  have brace : placed.token.isBrace = true := by simp [Token.isBrace, closes]
  rcases Role.brace_of_proper (proper _ found) other own brace with
    ⟨id, opener, children, closer, span, rfl, ⟨-, opens⟩ | ⟨rfl, -⟩⟩ | ⟨id, same⟩ |
      ⟨id, same, -⟩
  · exact absurd opens (by simp [Braces.isBeginGroup_of_isEndGroup closes])
  · exact .inl ⟨role, id, opener, children, span, found⟩
  · exact .inr (.inl ⟨id, same ▸ found⟩)
  · have picked : Role.stray (role, node) = some (id, placed) := by
      simp [same, Role.stray, closes]
    exact .inr (.inr (List.mem_map_of_mem (List.mem_filterMap.mpr ⟨_, found, picked⟩)))

end Marked

section

variable {commands : CommandTable} {placed : Placed}

theorem contentRole_ne_verbatim (delimiter : Delimiter) (level : Nat) :
    delimiter.contentRole level ≠ .verbatim := by
  unfold Delimiter.contentRole
  split <;> exact nofun

/-- A token of a body outside of verbatim bodies stands in a body of text. -/
theorem CommandTable.bodyRole_of_mem {name : Text} {code : List Placed}
    (inside : placed ∈ if commands.isVerbatim name then [] else code) :
    commands.bodyRole name ≠ .verbatim ∧ placed ∈ code := by
  unfold CommandTable.bodyRole
  split at inside
  · cases inside
  · rename_i text
    exact ⟨by simp [text], inside⟩

mutual

/-- A token outside of verbatim bodies belongs to a node that stands in none. -/
theorem Node.marked_of_mem_code (level : Nat) (role : Role) (other : role ≠ .verbatim) :
    (node : Node) → placed ∈ node.code commands → Marked (node.located commands level role) placed
  | .leaf id token, member => ⟨_, List.mem_cons_self, other, member⟩
  | .group id delimiter opener children closer span, member => by
    rw [Node.code, List.append_assoc, List.mem_append, List.mem_append] at member
    rcases member with own | inside | own
    · exact .last other (List.mem_append_left _ own)
    · exact .left (marked_of_mem_codeAll _ _ (contentRole_ne_verbatim delimiter level) children
        inside)
    · exact .last other (List.mem_append_right _ own)
  | .math id display opener children closer span, member => by
    rw [Node.code, List.mem_append, List.mem_cons] at member
    rcases member with (rfl | inside) | own
    · exact .last other List.mem_cons_self
    · exact .left (marked_of_mem_codeAll (level + 1) .text nofun children inside)
    · exact .last other (List.mem_cons_of_mem _ own)
  | .command invocation, member => invocation.marked_of_mem_code level role other member
  | .environment id name opening body none matched span, member => by
    rw [Node.code, List.mem_append] at member
    rcases member with head | inside
    · exact .left (.left (opening.marked_of_mem_code level (.opening name) nofun head))
    · obtain ⟨text, inside⟩ := CommandTable.bodyRole_of_mem inside
      exact .left (.right (marked_of_mem_codeAll _ _ text body inside))
  | .environment id name opening body (some ending) matched span, member => by
    rw [Node.code, List.mem_append, List.mem_append] at member
    rcases member with (head | inside) | last
    · exact .left (.left (.left (opening.marked_of_mem_code level (.opening name) nofun head)))
    · obtain ⟨text, inside⟩ := CommandTable.bodyRole_of_mem inside
      exact .left (.left (.right (marked_of_mem_codeAll _ _ text body inside)))
    · exact .left (.right (ending.marked_of_mem_code level .ending nofun last))
  | .inclusion id directive fileId path document span, member =>
    .left (directive.marked_of_mem_code level role other member)

theorem Command.marked_of_mem_code (level : Nat) (role : Role) (other : role ≠ .verbatim) :
    (invocation : Command) → placed ∈ invocation.code commands →
      Marked (invocation.located commands level role) placed
  | ⟨id, name, head, star, arguments, span⟩, member => by
    rw [Command.code, List.mem_append] at member
    rcases member with own | inside
    · exact .last other own
    · exact .left (marked_of_mem_codeArguments level arguments inside)

theorem marked_of_mem_codeAll (level : Nat) (role : Role) (other : role ≠ .verbatim) :
    (nodes : List Node) → placed ∈ codeAll commands nodes →
      Marked (locatedAll commands level role nodes) placed
  | node :: rest, member => by
    rcases List.mem_append.mp member with first | later
    · exact .left (node.marked_of_mem_code level role other first)
    · exact .right (marked_of_mem_codeAll level role other rest later)

theorem marked_of_mem_codeArguments (level : Nat) :
    (arguments : List Argument) → placed ∈ codeArguments commands arguments →
      Marked (locatedArguments commands level arguments) placed
  | ⟨_, leading, content⟩ :: rest, member => by
    rw [codeArguments, List.mem_append, List.mem_append] at member
    rcases member with (before | inside) | later
    · exact .left (.left (marked_of_mem_codeAll level .text nofun leading before))
    · exact .left (.right (content.marked_of_mem_code level .text nofun inside))
    · exact .right (marked_of_mem_codeArguments level rest later)

end

end

/-- Among the problems that the parser reports, no other has the message of a stray closing
brace. -/
theorem Problem.message_eq_stray_iff {problem : Problem}
    (structural : problem.isStructural = true) :
    problem.message = unexpectedGroupEnd.message ↔ problem = .unexpectedGroupEnd := by
  refine ⟨fun same => ?_, fun same => same ▸ rfl⟩
  have first : problem.message.head? = some (.char 'u') := congrArg List.head? same
  have third : problem.message[2]? = some (.char 'e') := congrArg (·[2]?) same
  have unequal : some (Glyph.char 't') ≠ some (.char 'e') := by decide
  have nesting : some (Glyph.char 'n') ≠ some (.char 'u') := by decide
  have backslash : some (Glyph.char '\\') ≠ some (.char 'u') := by decide
  have environment : some (Glyph.char 'e') ≠ some (.char 'u') := by decide
  have missing : some (Glyph.char 'm') ≠ some (.char 'u') := by decide
  cases problem with
  | unexpectedGroupEnd => rfl
  | unterminatedGroup | unterminatedOptional | unterminatedMath => exact absurd third unequal
  | nestingTooDeep => exact absurd first nesting
  | unmatchedEnd | environmentEndedBy => exact absurd first backslash
  | environmentNeverClosed => exact absurd first environment
  | missingArgument => exact absurd first missing
  | _ => cases structural

/-- The node of a defect that is a stray closing brace. -/
def Problem.strayNode : Problem × NodeId → Option NodeId
  | (.unexpectedGroupEnd, id) => some id
  | _ => none

theorem Parser.Report.strayNode_of_eq (report : Report)
    (stray : report.problem = .unexpectedGroupEnd) :
    report.defect.bind Problem.strayNode = report.node := by
  obtain ⟨problem, span, node⟩ := report
  subst stray
  cases node <;> rfl

theorem Parser.Report.strayNode_of_ne (report : Report)
    (other : report.problem ≠ .unexpectedGroupEnd) :
    report.defect.bind Problem.strayNode = none := by
  obtain ⟨problem, span, node⟩ := report
  rw [Option.bind_eq_none_iff]
  intro defect found
  have same : defect.1 = problem := by
    simp only [Report.defect] at found
    split at found
    · cases found
    · obtain ⟨id, -, rfl⟩ := Option.map_eq_some_iff.mp found
      rfl
  obtain ⟨own, id⟩ := defect
  cases own with
  | unexpectedGroupEnd => exact absurd same.symm other
  | _ => rfl

/-- The stray braces are the defects with this problem. -/
theorem Role.strayNode_defect (entry : Role × Node) :
    (Role.defect entry).bind Problem.strayNode = (Role.stray entry).map Prod.fst := by
  obtain ⟨role, node⟩ := entry
  cases node with
  | leaf id placed =>
    rw [Role.defect, Role.problem, Role.stray]
    split <;> rfl
  | group id delimiter opener children closer span =>
    cases delimiter <;> cases closer <;> rfl
  | math id display opener children closer span => cases closer <;> rfl
  | command invocation =>
    rw [Role.defect, Role.problem]
    split <;> rfl
  | environment id name opening body ending matched span =>
    cases ending <;> cases matched <;> rfl
  | inclusion => rfl

namespace Document

/-- The groups of a document pair its braces as a stack does. -/
structure BracesMatched (commands : CommandTable) (tokens : List Token) (document : Document) :
    Prop where
  /-- The tree has the tokens of the source, up to split math shifts, and those outside of
  verbatim bodies in the same order. -/
  kept : Parser.Splits (contentOf tokens) (document.root.placed.map Placed.token)
  distinct : (document.root.placed.map Placed.index).Nodup
  code : (document.root.code commands).Sublist document.root.placed
  /-- A group is closed by the brace that matches its opening one, and by none if none does. -/
  groups : ∀ id opener children closer span,
    .group id .brace opener children closer span ∈ document.walk →
      ∃ placed, opener = some placed ∧ placed.token.isBeginGroup = true ∧
        (∀ other, closer = some other ↔
          (placed, other) ∈ (Braces.of (document.root.code commands)).pairs) ∧
        (closer = none ↔ placed ∈ (Braces.of (document.root.code commands)).waiting)
  /-- An opening brace opens a group, or is a leaf of a group that is kept flat. -/
  openers : ∀ placed ∈ document.root.code commands, placed.token.isBeginGroup = true →
    (∃ id children closer span,
      .group id .brace (some placed) children closer span ∈ document.walk) ∨
      ∃ id, (.flattened, .leaf id placed) ∈ document.located commands
  /-- A closing brace closes a group, is a leaf of a group that is kept flat, or is stray. -/
  closers : ∀ placed ∈ document.root.code commands, placed.token.isEndGroup = true →
    (∃ id opener children span,
      .group id .brace opener children (some placed) span ∈ document.walk) ∨
      (∃ id, (.flattened, .leaf id placed) ∈ document.located commands) ∨
      placed ∈ (Braces.of (document.root.code commands)).stray
  /-- The stray braces are leaves in text, and they are those that are reported. -/
  stray : (Braces.of (document.root.code commands)).stray =
    ((document.located commands).filterMap Role.stray).map Prod.snd
  reported :
    (document.diagnostics.filter
        (·.message = Problem.unexpectedGroupEnd.message)).filterMap Diagnostic.node =
      ((document.located commands).filterMap Role.stray).map Prod.fst
  /-- Nothing else has a brace as one of its own tokens. -/
  proper : ∀ entry ∈ document.located commands, Role.Proper entry
  flattened : ∀ node, (.flattened, node) ∈ document.located commands →
    ∃ id placed, node = .leaf id placed

namespace Derived

variable {commands : CommandTable} {tokens : List Token} {document : Document}
  {children : List Node} {reports : List Parser.Report}

theorem plain_root (derived : Derived commands tokens document children reports) :
    Role.Plain (.text, document.root) := by
  obtain ⟨span, root⟩ := derived.root
  rw [root]
  exact ⟨fun _ => trivial, rfl, by simp, List.forall_mem_nil _⟩

theorem matched (derived : Derived commands tokens document children reports) :
    Matched false (document.root.code commands) (document.located commands) [] := by
  obtain ⟨span, root⟩ := derived.root
  have code : document.root.code commands = codeAll commands children := by
    rw [root]
    simp [Node.code]
  rw [code, derived.located_eq]
  exact derived.reads.matched.snoc derived.plain_root

/-- The stray braces are reported, each at its node. -/
theorem strays (derived : Derived commands tokens document children reports) :
    (document.diagnostics.filter
        (·.message = Problem.unexpectedGroupEnd.message)).filterMap Diagnostic.node =
      ((document.located commands).filterMap Role.stray).map Prod.fst := by
  have defects := congrArg (List.filterMap Problem.strayNode) derived.reads.defects
  rw [List.filterMap_filterMap, List.filterMap_filterMap] at defects
  simp only [Role.strayNode_defect, Parser.Piece.located] at defects
  rw [derived.filterMap_located derived.plain_root.stray, List.map_filterMap,
    List.filterMap_filter, ← defects]
  apply derived.filterMap_diagnostics
  · intro report structural
    have same : report.diagnostic.message = _ ↔ report.problem = .unexpectedGroupEnd :=
      Problem.message_eq_stray_iff structural
    by_cases stray : report.problem = .unexpectedGroupEnd
    · simp only [same.mpr stray, decide_true, if_true]
      exact (report.strayNode_of_eq stray).symm
    · simp only [mt same.mp stray, decide_false, Bool.false_eq_true, if_false]
      exact (report.strayNode_of_ne stray).symm
  · intro report nesting
    rw [Parser.Report.defect, if_pos nesting, Option.bind_none]

end Derived

/-- **Braces always win.** -/
theorem braces_ofTokens (tokens : List Token) (source : Text) (fileId : FileId)
    (commands : CommandTable) :
    BracesMatched commands tokens (ofTokens tokens source fileId commands) := by
  obtain ⟨children, reports, derived⟩ := derived_ofTokens tokens source fileId commands
  generalize ofTokens tokens source fileId commands = document at derived
  have matched := derived.matched
  have below : (document.root.code commands).Sublist document.root.placed :=
    document.root.code_sublist_placed
  have marked : ∀ placed ∈ document.root.code commands, Marked (document.located commands) placed :=
    fun placed => document.root.marked_of_mem_code 0 .text (by simp)
  constructor
  case kept => exact derived.kept
  case distinct => exact derived.indices
  case code => exact below
  case groups =>
    intro id opener children closer span member
    obtain ⟨role, found⟩ : ∃ role, (role, _) ∈ document.located commands := mem_walk_iff.mp member
    exact (matched.groups _ found).exact
      (Braces.nodup_openers (below.nodup (List.Nodup.of_map Placed.index derived.indices)))
  case openers =>
    intro placed member opens
    rcases (marked placed member).opener matched.proper opens with
      ⟨role, id, children, closer, span, found⟩ | leaf
    · exact .inl ⟨id, children, closer, span, mem_walk_iff.mpr ⟨role, found⟩⟩
    · exact .inr leaf
  case closers =>
    intro placed member closes
    rcases (marked placed member).closer matched.proper closes with
      ⟨role, id, opener, children, span, found⟩ | leaf | stray
    · exact .inl ⟨id, opener, children, span, mem_walk_iff.mpr ⟨role, found⟩⟩
    · exact .inr (.inl leaf)
    · exact .inr (.inr (matched.stray ▸ stray))
  case stray => exact matched.stray
  case reported => exact derived.strays
  case proper => exact matched.proper
  case flattened => exact fun node member => Role.leaf_of_proper (matched.proper _ member)

end Document

end TexSource
