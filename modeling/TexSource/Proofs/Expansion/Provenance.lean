import TexSource.Proofs.Expansion.Heredity
import TexSource.Proofs.Expansion.Identity

/-!
# Where the tokens of an expansion come from

A hereditary property that the tokens of a document have, and those of all documents that
can be included in it (`Supplies`), is kept by every step of a branch
(`Branch.Carries.step`) and so by its run. It then holds of all tokens of the expanded
document, and of those of the documents that are included in it (`carries_expand`).
-/

namespace TexSource

variable {property : Token → Prop}

/-- The tokens under the root of a document have a property, and so have those of the
documents that are included in it. -/
structure Document.Carries (property : Token → Prop) (document : Document) : Prop where
  placed : ∀ token ∈ document.root.placed.map Placed.token, property token
  inlined : ∀ token ∈ document.inlined, property token

/-- The tokens under the root are those before the end of input, up to split math shifts. No
document is included in one that is built from tokens. -/
theorem Document.splits_placed (tokens : List Token) (source : Text) (fileId : FileId)
    (commands : CommandTable) :
    Parser.Splits (contentOf tokens)
        ((ofTokens tokens source fileId commands).root.placed.map Placed.token) ∧
      (ofTokens tokens source fileId commands).tokens =
        (ofTokens tokens source fileId commands).root.placed.map Placed.token ++
          [endOf tokens fileId] ∧
      ∀ below ∈ (ofTokens tokens source fileId commands).walk, below.isInclusion = false := by
  have ends : (endOf tokens fileId).kind = .endOfInput := by
    simpa [Token.isEndOfInput] using isEndOfInput_endOf tokens fileId
  have built := Parser.built_nodesOf ⟨fileId, commands, endOf tokens fileId⟩ ends
    (contentOf tokens)
  have read := Parser.rest_nodesOf ⟨fileId, commands, endOf tokens fileId⟩ (contentOf tokens)
  have whole := built.toNumbered.create (ofTokens tokens source fileId commands).root rfl rfl rfl
  have kept := built.rest
  have taken := built.taken
  rw [read, List.append_nil] at kept
  refine ⟨?_, ?_, whole.own⟩
  · simpa [ofTokens, Node.placed] using kept
  · simpa [ofTokens, Node.placed] using taken

/-- A parsed document includes no other one. -/
theorem Document.own_of_parse {source : Text} {table : Catcode.Table} {commands : CommandTable}
    {fileId : FileId} {document : Document}
    (parsed : Document.parse source table commands fileId = .ok document) :
    ∀ below ∈ document.walk, below.isInclusion = false := by
  obtain ⟨tokens, _, _, _, rfl⟩ := Expansion.document_of_parse parsed
  exact (splits_placed tokens source fileId commands).2.2

/-- The end of a document is that of its tokens. -/
theorem Document.endOfInput_ofTokens (tokens : List Token) (source : Text) (fileId : FileId)
    (commands : CommandTable) :
    (ofTokens tokens source fileId commands).endOfInput = endOf tokens fileId := by
  simp [Document.endOfInput, ofTokens]

/-- A document that is built from tokens with a hereditary property carries it. -/
theorem Document.carries_ofTokens (hereditary : Expansion.Hereditary property)
    {tokens : List Token} (holds : ∀ token ∈ contentOf tokens, property token) (source : Text)
    (fileId : FileId) (commands : CommandTable) :
    (ofTokens tokens source fileId commands).Carries property := by
  obtain ⟨splits, _, own⟩ := splits_placed tokens source fileId commands
  have placed := splits.forall_mem (fun _ => hereditary.halves) holds
  refine ⟨placed, ?_⟩
  rw [Document.inlined_eq, Node.inlined_eq_placed _ own]
  exact placed

/-- A parsed document carries a hereditary property of the tokens of its source. -/
theorem Document.carries_parse (hereditary : Expansion.Hereditary property) {source : Text}
    {table : Catcode.Table} {commands : CommandTable} {fileId : FileId} {document : Document}
    (parsed : Document.parse source table commands fileId = .ok document)
    (holds : ∀ tokens reports, lex source table fileId = .ok (tokens, reports) →
      ∀ token ∈ tokens, token.isEndOfInput = false → property token) :
    document.Carries property ∧
      ∀ token ∈ document.tokens, token.isEndOfInput = false → property token := by
  obtain ⟨tokens, reports, diagnostics, read, rfl⟩ := Expansion.document_of_parse parsed
  obtain ⟨_, listed, _⟩ := splits_placed tokens source fileId commands
  have content : ∀ token ∈ contentOf tokens, property token := by
    intro token member
    have inside := List.mem_takeWhile_imp member
    exact holds tokens reports read token (List.takeWhile_subset _ member) (by simpa using inside)
  have carries := carries_ofTokens hereditary content source fileId commands
  refine ⟨⟨carries.placed, ?_⟩, ?_⟩
  · rw [Document.inlined_eq]
    simpa [Document.inlined_eq] using carries.inlined
  · intro token member inside
    have member : token ∈ (ofTokens tokens source fileId commands).tokens := member
    rw [listed] at member
    rcases List.mem_append.mp member with placed | last
    · exact carries.placed token placed
    · have ends := isEndOfInput_endOf tokens fileId
      rw [← List.mem_singleton.mp last, inside] at ends
      cases ends

namespace Expansion

/-- A command is spliced to itself, or to the inclusion of the document for its ticket, above
itself. -/
theorem spliceNode_command (inclusions : Array Inclusion) (invocation : Command)
    (created : NodeId) :
    invocation.head.token.ticket.bind (inclusions[·]?) = none ∧
        (spliceNode inclusions (.command invocation) created).1 =
          .command (spliceCommand inclusions invocation created).1 ∨
      ∃ included ∈ inclusions,
        invocation.head.token.ticket.bind (inclusions[·]?) = some included ∧
          (spliceNode inclusions (.command invocation) created).1 =
            .inclusion (spliceCommand inclusions invocation created).1.id
              { (spliceCommand inclusions invocation created).1 with
                id := (spliceCommand inclusions invocation created).2 }
              included.fileId included.path included.document
              (spliceCommand inclusions invocation created).1.span := by
  have head : (spliceCommand inclusions invocation created).1.head = invocation.head := by
    cases invocation
    rfl
  rw [← head]
  unfold spliceNode
  dsimp only [bind, StateT.bind]
  generalize spliceCommand inclusions invocation created = spliced
  obtain ⟨command, later⟩ := spliced
  dsimp only
  cases found : command.head.token.ticket.bind (inclusions[·]?) with
  | none => exact .inl ⟨rfl, rfl⟩
  | some included =>
    obtain ⟨ticket, _, present⟩ := Option.bind_eq_some_iff.mp found
    exact .inr ⟨included, Array.mem_of_getElem? present, rfl, rfl⟩

mutual

/-- Splicing leaves the tokens under a node where they are. -/
theorem placed_spliceNode (inclusions : Array Inclusion) : (node : Node) → (created : NodeId) →
    (spliceNode inclusions node created).1.placed = node.placed
  | .leaf _ _, _ => rfl
  | .group _ _ opener children closer _, created => by
    have inside := placedAll_spliceNodes inclusions children created
    exact congrArg (opener.toList ++ · ++ closer.toList) inside
  | .math _ _ opener children closer _, created => by
    have inside := placedAll_spliceNodes inclusions children created
    exact congrArg (opener :: · ++ closer.toList) inside
  | .command invocation, created => by
    have same := placed_spliceCommand inclusions invocation created
    rcases spliceNode_command inclusions invocation created with
      ⟨-, stays⟩ | ⟨included, -, -, spliced⟩
    · rw [stays]
      exact same
    · rw [spliced, Node.placed]
      cases command : (spliceCommand inclusions invocation created).1
      rw [command] at same
      exact same
  | .environment _ _ opening body none _ _, created => by
    have head := placed_spliceCommand inclusions opening created
    have inside := placedAll_spliceNodes inclusions body
      (spliceCommand inclusions opening created).2
    exact congrArg₂ (· ++ ·) head inside
  | .environment _ _ opening body (some ending) _ _, created => by
    have head := placed_spliceCommand inclusions opening created
    have inside := placedAll_spliceNodes inclusions body
      (spliceCommand inclusions opening created).2
    have last := placed_spliceCommand inclusions ending (spliceNodes inclusions body
      (spliceCommand inclusions opening created).2).2
    exact congrArg₂ (· ++ ·) (congrArg₂ (· ++ ·) head inside) last
  | .inclusion _ _ _ _ _ _, _ => rfl

/-- A command keeps its tokens when inclusions are put in place. -/
theorem placed_spliceCommand (inclusions : Array Inclusion) :
    (invocation : Command) → (created : NodeId) →
      (spliceCommand inclusions invocation created).1.placed = invocation.placed
  | ⟨_, _, head, star, arguments, _⟩, created => by
    have inside := placed_spliceArguments inclusions arguments created
    exact congrArg (head :: star.toList ++ ·) inside

/-- Nodes keep their tokens when inclusions are put in place. -/
theorem placedAll_spliceNodes (inclusions : Array Inclusion) :
    (nodes : List Node) → (created : NodeId) →
      placedAll (spliceNodes inclusions nodes created).1 = placedAll nodes
  | [], _ => rfl
  | node :: rest, created => by
    have first := placed_spliceNode inclusions node created
    have later := placedAll_spliceNodes inclusions rest (spliceNode inclusions node created).2
    exact congrArg₂ (· ++ ·) first later

theorem placed_spliceArguments (inclusions : Array Inclusion) :
    (arguments : List Argument) → (created : NodeId) →
      placedArguments (spliceArguments inclusions arguments created).1 = placedArguments arguments
  | [], _ => rfl
  | ⟨_, leading, content⟩ :: rest, created => by
    have before := placedAll_spliceNodes inclusions leading created
    have inside := placed_spliceNode inclusions content
      (spliceNodes inclusions leading created).2
    have later := placed_spliceArguments inclusions rest
      (spliceNode inclusions content (spliceNodes inclusions leading created).2).2
    exact congrArg₂ (· ++ ·) (congrArg₂ (· ++ ·) before inside) later

end

/-- The tokens that are printed for an inclusion have a property. -/
def Inclusion.Carries (property : Token → Prop) (inclusion : Inclusion) : Prop :=
  ∀ token ∈ inclusion.document.inlined, property token

mutual

/-- What holds of the tokens that are printed for a node and for the inclusions holds of
those that are printed after splicing. -/
theorem inlined_spliceNode {inclusions : Array Inclusion}
    (given : ∀ included ∈ inclusions, included.Carries property) :
    (node : Node) → (created : NodeId) →
    (∀ token ∈ node.inlined, property token) →
      ∀ token ∈ (spliceNode inclusions node created).1.inlined, property token
  | .leaf _ _, _, holds => holds
  | .group _ _ opener children closer _, created, holds => by
    have holds : ∀ token ∈ opener.toList.map Placed.token ++ inlinedAll children ++
        closer.toList.map Placed.token, property token := holds
    rw [List.forall_mem_append, List.forall_mem_append] at holds
    have inside := inlined_spliceNodes given children created holds.1.2
    exact List.forall_mem_append.mpr
      ⟨List.forall_mem_append.mpr ⟨holds.1.1, inside⟩, holds.2⟩
  | .math _ _ opener children closer _, created, holds => by
    have holds : ∀ token ∈ opener.token :: inlinedAll children ++
        closer.toList.map Placed.token, property token := holds
    rw [List.forall_mem_append, List.forall_mem_cons] at holds
    have inside := inlined_spliceNodes given children created holds.1.2
    exact List.forall_mem_append.mpr
      ⟨List.forall_mem_cons.mpr ⟨holds.1.1, inside⟩, holds.2⟩
  | .command invocation, created, holds => by
    have kept := inlined_spliceCommand given invocation created holds
    rcases spliceNode_command inclusions invocation created with
      ⟨-, stays⟩ | ⟨included, member, -, spliced⟩
    · rw [stays]
      exact kept
    · rw [spliced]
      exact given included member
  | .environment _ _ opening body none _ _, created, holds => by
    have holds : ∀ token ∈ opening.inlined ++ inlinedAll body, property token := holds
    rw [List.forall_mem_append] at holds
    have head := inlined_spliceCommand given opening created holds.1
    have inside := inlined_spliceNodes given body (spliceCommand inclusions opening created).2
      holds.2
    exact List.forall_mem_append.mpr ⟨head, inside⟩
  | .environment _ _ opening body (some ending) _ _, created, holds => by
    have holds : ∀ token ∈ opening.inlined ++ inlinedAll body ++ ending.inlined,
        property token := holds
    rw [List.forall_mem_append, List.forall_mem_append] at holds
    have head := inlined_spliceCommand given opening created holds.1.1
    have inside := inlined_spliceNodes given body (spliceCommand inclusions opening created).2
      holds.1.2
    have last := inlined_spliceCommand given ending (spliceNodes inclusions body
      (spliceCommand inclusions opening created).2).2 holds.2
    exact List.forall_mem_append.mpr ⟨List.forall_mem_append.mpr ⟨head, inside⟩, last⟩
  | .inclusion _ _ _ _ _ _, _, holds => holds

/-- The tokens under a command are its own or those of inclusions put in place. -/
theorem inlined_spliceCommand {inclusions : Array Inclusion}
    (given : ∀ included ∈ inclusions, included.Carries property) :
    (invocation : Command) → (created : NodeId) →
    (∀ token ∈ invocation.inlined, property token) →
      ∀ token ∈ (spliceCommand inclusions invocation created).1.inlined, property token
  | ⟨_, _, head, star, arguments, _⟩, created, holds => by
    have holds : ∀ token ∈ head.token :: star.toList.map Placed.token ++
        inlinedArguments arguments, property token := holds
    rw [List.forall_mem_append] at holds
    have inside := inlined_spliceArguments given arguments created holds.2
    exact List.forall_mem_append.mpr ⟨holds.1, inside⟩

/-- The tokens under nodes are their own or those of inclusions put in place. -/
theorem inlined_spliceNodes {inclusions : Array Inclusion}
    (given : ∀ included ∈ inclusions, included.Carries property) :
    (nodes : List Node) → (created : NodeId) →
    (∀ token ∈ inlinedAll nodes, property token) →
      ∀ token ∈ inlinedAll (spliceNodes inclusions nodes created).1, property token
  | [], _, holds => holds
  | node :: rest, created, holds => by
    have holds : ∀ token ∈ node.inlined ++ inlinedAll rest, property token := holds
    rw [List.forall_mem_append] at holds
    have first := inlined_spliceNode given node created holds.1
    have later := inlined_spliceNodes given rest (spliceNode inclusions node created).2 holds.2
    exact List.forall_mem_append.mpr ⟨first, later⟩

theorem inlined_spliceArguments {inclusions : Array Inclusion}
    (given : ∀ included ∈ inclusions, included.Carries property) :
    (arguments : List Argument) → (created : NodeId) →
    (∀ token ∈ inlinedArguments arguments, property token) →
      ∀ token ∈ inlinedArguments (spliceArguments inclusions arguments created).1,
        property token
  | [], _, holds => holds
  | ⟨_, leading, content⟩ :: rest, created, holds => by
    have holds : ∀ token ∈ inlinedAll leading ++ content.inlined ++ inlinedArguments rest,
        property token := holds
    rw [List.forall_mem_append, List.forall_mem_append] at holds
    have before := inlined_spliceNodes given leading created holds.1.1
    have inside := inlined_spliceNode given content (spliceNodes inclusions leading created).2
      holds.1.2
    have later := inlined_spliceArguments given rest
      (spliceNode inclusions content (spliceNodes inclusions leading created).2).2 holds.2
    exact List.forall_mem_append.mpr ⟨List.forall_mem_append.mpr ⟨before, inside⟩, later⟩

end

/-- The macros that are bound write only tokens with a property, and the file table is one that
is kept. -/
structure Shared.Carries (property : Token → Prop) (kept : FileTable → Prop)
    (shared : Shared) : Prop where
  scope : shared.scope.Every (Macro.Yields property)
  table : kept shared.table

/-- What an expansion relies on of the files: entering and reading them leads from kept file
tables to kept ones, and the documents of the files other than the main one, parsed, have
tokens with a property, ends of input aside. -/
structure Supplies (files : FileSystem) (main : FileId) (property : Token → Prop)
    (kept : FileTable → Prop) : Prop where
  enter {table : FileTable} (holds : kept table) (path : Path) (parent : Option FileId) :
    kept (table.enter path parent).2
  document {table : FileTable} (holds : kept table) (id : FileId) :
    kept (table.document files id).2
  supplied {table later : FileTable} {path : Path} {parent : Option FileId} {document : Document}
    (holds : kept table) (apart : (table.enter path parent).1.id ≠ main)
    (read : (table.enter path parent).2.document files (table.enter path parent).1.id =
      (.ok document, later)) :
    ∀ token ∈ document.tokens, token.isEndOfInput = false → property token

/-- Expanding an included document keeps a property of tokens. -/
def Nested.Carries (main : FileId) (property : Token → Prop) (kept : FileTable → Prop)
    (nested : Nested) : Prop :=
  ∀ reader, nested = some reader → ∀ document ancestors shared, main ∈ ancestors →
    (∀ token ∈ document.tokens, token.isEndOfInput = false → property token) →
    shared.Carries property kept → ∀ expanded later,
      reader document ancestors shared = .ok (expanded, later) →
        (∀ token ∈ expanded.inlined, property token) ∧ later.Carries property kept

namespace Branch

/-- What a branch has to read, has written, and has included has a property. -/
structure Carries (property : Token → Prop) (kept : FileTable → Prop) (branch : Branch) :
    Prop where
  stream : ∀ token ∈ branch.stream.tokens, property token
  output : ∀ token ∈ branch.output.toList, property token
  inclusions : ∀ included ∈ branch.inclusions.toList, included.Carries property
  shared : branch.shared.Carries property kept

variable {kept : FileTable → Prop} {branch : Branch}

namespace Carries

/-- Tokens with the property may be written. -/
theorem write (carries : branch.Carries property kept) {tokens : List Token}
    (holds : ∀ token ∈ tokens, property token) : (branch.write tokens).Carries property kept where
  stream := carries.stream
  output := by
    change ∀ token ∈ (branch.output ++ tokens).toList, property token
    rw [Array.toList_appendList]
    exact List.forall_mem_append.mpr ⟨carries.output, holds⟩
  inclusions := carries.inclusions
  shared := carries.shared

/-- A construct of such tokens may be given up. -/
theorem giveUp (carries : branch.Carries property kept) {first : Token} {consumed : List Token}
    (holdsFirst : property first) (holds : ∀ token ∈ consumed, property token) :
    (branch.giveUp first consumed).Carries property kept :=
  have written := carries.write (List.forall_mem_singleton.mpr holdsFirst)
  { written with
    stream := by
      intro token member
      rw [Branch.giveUp, Stream.tokens_push] at member
      rcases List.mem_append.mp member with again | later
      · exact holds token again
      · exact carries.stream token later }

/-- A scope whose macros yield such tokens may take the place of another. -/
theorem withScope (carries : branch.Carries property kept) {change : Scope → Scope}
    (holds : (change branch.shared.scope).Every (Macro.Yields property)) :
    (branch.withScope change).Carries property kept :=
  { carries with shared := ⟨holds, carries.shared.table⟩ }

/-- A report changes no token. -/
theorem report (carries : branch.Carries property kept) (problem : Problem) (span : Span) :
    (branch.report problem span).Carries property kept :=
  { carries with shared := ⟨carries.shared.scope, carries.shared.table⟩ }

/-- A scan that hands a property on grants something of its outcome, and what it consumed
has the property. -/
theorem attempt (carries : branch.Carries property kept) {Result : Type} {scan : Scan Result}
    {granted : Result → Prop} (hands : Scan.Hands property scan granted) :
    granted (branch.attempt scan).1 ∧ (∀ token ∈ (branch.attempt scan).2.1, property token) ∧
      (branch.attempt scan).2.2.Carries property kept := by
  obtain ⟨holds, stream, consumed⟩ := hands.hand ⟨branch.stream, [], #[]⟩
    ⟨carries.stream, fun _ member => nomatch member⟩
  exact ⟨holds, consumed, stream, carries.output, carries.inclusions, carries.shared.scope,
    carries.shared.table⟩

end Carries

/-- A definition that is entered or given up leaves tokens with the property. -/
theorem carries_defineOrGiveUp (carries : branch.Carries property kept) {first : Token}
    {consumed : List Token} (holdsFirst : property first)
    (holds : ∀ token ∈ consumed, property token) {definition : Option Macro}
    (defined : ∀ found ∈ definition, found.Yields property) :
    (branch.defineOrGiveUp first consumed definition).Carries property kept := by
  cases definition with
  | none => exact carries.giveUp holdsFirst holds
  | some definition =>
    have known := carries.shared.scope.define (defined definition rfl)
    exact { carries with shared := ⟨known, carries.shared.table⟩ }

variable {token : Token} (carries : branch.Carries property kept) (holds : property token)

include carries holds

/-- Reading a definition leaves tokens with the property. -/
theorem carries_defineBy {scan : Scan (Option Macro)}
    (hands : Scan.Hands property scan fun definition =>
      ∀ found ∈ definition, found.Yields property) :
    (branch.defineBy token scan).Carries property kept := by
  obtain ⟨defined, consumed, carries⟩ := carries.attempt hands
  exact carries_defineOrGiveUp carries holds consumed defined

theorem carries_defineMarked (hereditary : Hereditary property) (isGlobal : Bool) :
    (branch.defineMarked token isGlobal).Carries property kept := by
  obtain ⟨defined, consumed, carries⟩ := carries.attempt
    (Scan.hands_marked hereditary.toInherited (Macro.follows_yields hereditary.toInherited)
      carries.shared.scope isGlobal)
  unfold defineMarked
  dsimp only
  split
  · rename_i definition same
    exact carries.withScope (carries.shared.scope.define (defined definition same))
  · exact carries.giveUp holds consumed
  · exact carries.write (List.forall_mem_cons.mpr ⟨holds, consumed⟩)

theorem carries_defineNewCommand (hereditary : Hereditary property) {word : Text} {after : Branch}
    (done : branch.defineNewCommand token word = .ok after) : after.Carries property kept := by
  obtain ⟨defined, consumed, carries⟩ := carries.attempt Scan.hands_newCommand
  unfold defineNewCommand at done
  dsimp only at done
  split at done
  · cases done
  · cases done
    exact carries.giveUp holds consumed
  · rename_i definition same
    split at done
    · cases done
      exact carries
    · cases done
      exact carries.withScope (carries.shared.scope.define
        ((defined definition same).yields hereditary.toInherited))

/-- The replacement of a known macro has tokens with the property. -/
theorem carries_call {definition : Macro}
    (known : definition.Yields property) :
    (branch.call token definition).Carries property kept := by
  have counted : Branch.Carries property kept { branch with steps := branch.steps + 1 } :=
    { carries with }
  obtain ⟨found, consumed, carries⟩ := counted.attempt (Scan.hands_invocation known token)
  unfold call
  dsimp only
  split
  · exact (carries.report _ _).giveUp holds consumed
  · rename_i arguments same
    have replaced := Macro.forall_mem_substitute (found arguments same) known.replacement
    refine { carries with stream := ?_ }
    intro other member
    rw [Stream.tokens_pushCall] at member
    rcases List.mem_append.mp member with new | later
    · exact replaced other new
    · exact carries.stream other later

/-- The invocation of a known macro leaves tokens with the property. -/
theorem carries_invoke {limits : Limits} {definition : Macro}
    (known : definition.Yields property) {after : Branch}
    (done : branch.invoke limits token definition = .ok after) :
    after.Carries property kept := by
  have written := fun problem span =>
    (carries.report problem span).write (List.forall_mem_singleton.mpr holds)
  unfold invoke at done
  split at done
  · cases done
  · cases done
    exact { written _ _ with }
  · cases done
    exact written _ _
  · cases done
    exact carries_call carries holds known

/-- The begin of an environment leaves tokens with the property. -/
theorem carries_beginEnvironment (commands : CommandTable) :
    (branch.beginEnvironment commands token).Carries property kept := by
  obtain ⟨_, consumed, carries⟩ := carries.attempt Scan.hands_environmentName
  unfold beginEnvironment
  dsimp only
  split
  · exact { carries.write (List.forall_mem_cons.mpr ⟨holds, consumed⟩) with }
  · exact carries.giveUp holds consumed

theorem carries_passVerbatim (name : Text) :
    (branch.passVerbatim name token).Carries property kept := by
  unfold passVerbatim
  split
  · obtain ⟨_, consumed, carries⟩ := carries.attempt Scan.hands_environmentName
    exact { carries.write (List.forall_mem_cons.mpr ⟨holds, consumed⟩) with }
  · exact carries.write (List.forall_mem_singleton.mpr holds)

omit carries holds

variable {settings : Settings} {site : Site} {nested : Nested} {main : FileId}

/-- The document that a name stands for is no main document, and its tokens have the
property. -/
theorem carries_locate (supplies : Supplies settings.files main property kept)
    (inside : main ∈ site.ancestors) {name : Text} {shared later : Shared}
    {located : Except Problem (FileEntry × Document)} (carries : shared.Carries property kept)
    (done : locate settings site name shared = .ok (located, later)) :
    later.Carries property kept ∧ ∀ entry document, located = .ok (entry, document) →
      ∀ token ∈ document.tokens, token.isEndOfInput = false → property token := by
  unfold locate at done
  split at done
  · cases done
  · cases done
    exact ⟨carries, nofun⟩
  · rename_i path resolved
    have entered := supplies.enter carries.table path (some site.fileId)
    dsimp only at done
    split at done
    · cases done
      exact ⟨⟨carries.scope, entered⟩, nofun⟩
    · rename_i noCycle
      have read := supplies.document entered
        (shared.table.enter path (some site.fileId)).1.id
      split at done
      · rename_i error table failed
        rw [failed] at read
        cases done
        exact ⟨⟨carries.scope, read⟩, nofun⟩
      · cases done
      · rename_i document table found
        rw [found] at read
        cases done
        refine ⟨⟨carries.scope, read⟩, ?_⟩
        intro entry document same
        cases same
        refine supplies.supplied carries.table ?_ found
        rintro rfl
        exact noCycle (List.contains_iff_mem.mpr inside)

/-- Loading a file gives a document whose tokens have the property. -/
theorem carries_load (supplies : Supplies settings.files main property kept)
    (inside : main ∈ site.ancestors) (below : nested.Carries main property kept) {name : Text}
    {anchor : Span} {shared later : Shared} {inclusion : Option Inclusion}
    (carries : shared.Carries property kept)
    (done : load settings site nested name anchor shared = .ok (inclusion, later)) :
    later.Carries property kept ∧ ∀ included ∈ inclusion, included.Carries property := by
  unfold load at done
  cases nested with
  | none =>
    cases done
    exact ⟨⟨carries.scope, carries.table⟩, nofun⟩
  | some reader =>
    dsimp only at done
    cases found : locate settings site name shared with
    | error abort =>
      rw [found] at done
      cases done
    | ok result =>
      obtain ⟨located, middle⟩ := result
      rw [found] at done
      obtain ⟨carries, supplied⟩ := carries_locate supplies inside carries found
      cases located with
      | error problem =>
        cases done
        exact ⟨⟨carries.scope, carries.table⟩, nofun⟩
      | ok result =>
        obtain ⟨entry, document⟩ := result
        cases expansion : reader document (site.ancestors ++ [entry.id]) middle with
        | error abort =>
          simp only [bind, Except.bind, expansion] at done
          cases done
        | ok result =>
          obtain ⟨expanded, last⟩ := result
          simp only [bind, Except.bind, expansion] at done
          cases done
          obtain ⟨inlined, carries⟩ := below reader rfl document _ middle
            (List.mem_append_left _ inside) (supplied entry document rfl) carries expanded _
            expansion
          refine ⟨carries, ?_⟩
          intro included same
          cases same
          exact inlined

/-- Following a directive leaves tokens with the property. -/
theorem carries_followDirective (hereditary : Hereditary property)
    (supplies : Supplies settings.files main property kept) (inside : main ∈ site.ancestors)
    (below : nested.Carries main property kept) (carries : branch.Carries property kept)
    (holds : property token) {after : Branch}
    (done : branch.followDirective settings site nested token = .ok after) :
    after.Carries property kept := by
  obtain ⟨tokens, consumed, carries⟩ :=
    carries.attempt (Scan.hands_inclusion hereditary.toInherited)
  unfold followDirective at done
  dsimp only at done
  split at done
  · cases done
    exact carries.giveUp holds consumed
  · rename_i directive same
    cases loaded : load settings site nested directive.name token.span
        (branch.attempt Scan.inclusion).2.2.shared with
    | error abort =>
      rw [loaded] at done
      cases done
    | ok result =>
      obtain ⟨inclusion, shared⟩ := result
      rw [loaded] at done
      cases done
      obtain ⟨shared, included⟩ := carries_load supplies inside below carries.shared loaded
      have written := carries.write (Scan.forall_mem_enclosed hereditary.toInherited
        (hereditary.withTicket holds (inclusion.map fun _ =>
          (branch.attempt Scan.inclusion).2.2.inclusions.size)) (tokens directive same))
      refine { written with inclusions := ?_, shared := shared }
      change ∀ included ∈ ((branch.attempt Scan.inclusion).2.2.inclusions ++
        inclusion.toList).toList, included.Carries property
      rw [Array.toList_appendList]
      exact List.forall_mem_append.mpr
        ⟨carries.inclusions, fun other member => included other (Option.mem_toList.mp member)⟩

/-- A control word leaves tokens with the property. -/
theorem carries_obey (hereditary : Hereditary property)
    (supplies : Supplies settings.files main property kept) (inside : main ∈ site.ancestors)
    (below : nested.Carries main property kept) (carries : branch.Carries property kept)
    (holds : property token) {word : Text} {after : Branch}
    (done : branch.obey settings site nested token word = .ok after) :
    after.Carries property kept := by
  unfold obey at done
  split at done
  · cases done
    exact carries_defineMarked carries holds hereditary _
  · split at done
    · cases done
      exact carries_defineBy carries holds ((Scan.hands_definition _).imp
        fun _ defined found same => (defined found same).yields hereditary.toInherited)
    · split at done
      · cases done
        exact carries_defineBy carries holds
          (Scan.hands_letBinding hereditary.toInherited
            (Macro.follows_yields hereditary.toInherited) carries.shared.scope _)
      · split at done
        · exact carries_defineNewCommand carries holds hereditary done
        · split at done
          · exact carries_followDirective hereditary supplies inside below carries holds done
          · split at done
            · cases done
              exact carries_beginEnvironment carries holds _
            · cases done
              exact carries.write (List.forall_mem_singleton.mpr holds)

/-- **One step** keeps a hereditary property. -/
theorem Carries.step (hereditary : Hereditary property)
    (supplies : Supplies settings.files main property kept) (inside : main ∈ site.ancestors)
    (below : nested.Carries main property kept) (carries : branch.Carries property kept)
    (holds : property token) {after : Branch}
    (done : branch.step settings site nested token = .ok after) :
    after.Carries property kept := by
  have alone : ∀ other ∈ [token], property other := List.forall_mem_singleton.mpr holds
  unfold Branch.step at done
  split at done
  · cases done
    exact carries.write alone
  · split at done
    · cases done
      exact carries_passVerbatim carries holds _
    · split at done
      · rename_i definition meaning
        have known : definition.Yields property :=
          carries.shared.scope.lookup (meaning?_eq_some_iff.mp meaning).2
        exact carries_invoke carries holds known done
      · split at done
        · cases done
          exact (carries.withScope carries.shared.scope.push).write alone
        · cases done
          refine (carries.withScope ?_).write alone
          split
          · exact carries.shared.scope.pop
          · exact carries.shared.scope
        · exact carries_obey hereditary supplies inside below carries holds done
        · cases done
          exact carries.write alone

/-- **A whole run** keeps a hereditary property. -/
theorem Carries.run (hereditary : Hereditary property)
    (supplies : Supplies settings.files main property kept) (inside : main ∈ site.ancestors)
    (below : nested.Carries main property kept) (carries : branch.Carries property kept)
    {after : Branch} (done : branch.run settings site nested = .ok after) :
    after.Carries property kept := by
  fun_induction branch.run settings site nested with
  | case1 branch stream found =>
    have parts := branch.stream.tokens_next
    rw [found] at parts
    cases done
    have left : ∀ token ∈ stream.tokens, property token := by
      intro token member
      exact carries.stream token (by rw [parts]; exact member)
    exact { carries with stream := left }
  | case2 branch token stream found abort failed => cases done
  | case3 branch token stream found later stepped ih =>
    have parts := branch.stream.tokens_next
    rw [found] at parts
    have left : ∀ other ∈ token :: stream.tokens, property other := by
      intro other member
      exact carries.stream other (by rw [parts]; exact member)
    rw [List.forall_mem_cons] at left
    have advanced : Branch.Carries property kept { branch with stream } :=
      { carries with stream := left.2 }
    exact ih (advanced.step hereditary supplies inside below left.1 stepped) done

end Branch

/-- Splicing keeps a property of the tokens of a document and of its inclusions. -/
theorem carries_splice {inclusions : Array Inclusion}
    (given : ∀ included ∈ inclusions, included.Carries property) {document : Document}
    (carries : document.Carries property) : (splice inclusions document).Carries property where
  placed := by
    rw [splice, placed_spliceNode]
    exact carries.placed
  inlined := by
    rw [Document.inlined_eq]
    exact inlined_spliceNode given _ _ (by rw [← Document.inlined_eq]; exact carries.inlined)

/-- The document that a branch comes to carries what the branch carries. -/
theorem Branch.Carries.result (hereditary : Hereditary property) {kept : FileTable → Prop}
    {branch : Branch} (carries : branch.Carries property kept) (commands : CommandTable)
    (document : Document) : (branch.result commands document).Carries property := by
  refine carries_splice (fun included member => carries.inclusions included
    (Array.mem_toList_iff.mpr member)) (Document.carries_ofTokens hereditary ?_ _ _ _)
  intro token member
  rcases List.mem_append.mp (List.takeWhile_subset _ member) with written | last
  · exact carries.output token written
  · have content := List.mem_takeWhile_imp member
    rw [List.mem_singleton.mp last] at content
    cases content

/-- If no end of input has the property, the document that a branch comes to ends where the
document ended that was expanded. -/
theorem Branch.Carries.ends {kept : FileTable → Prop} {branch : Branch}
    (carries : branch.Carries property kept)
    (content : ∀ token, property token → token.isEndOfInput = false) (commands : CommandTable)
    (document : Document) :
    (branch.result commands document).endOfInput.span = document.endOfInput.span ∧
      (branch.result commands document).size = document.endOfInput.span.stop.offset := by
  have inside : ∀ token ∈ branch.output.toList, token.isEndOfInput = false :=
    fun token member => content token (carries.output token member)
  have last : Document.endOf (branch.output.toList ++
      [{ kind := .endOfInput, raw := [], span := document.endOfInput.span }]) document.fileId = _ :=
    Document.endOf_concat inside rfl document.fileId
  have same : (branch.result commands document).endOfInput = Document.endOf _ _ :=
    Document.endOfInput_ofTokens _ document.source _ _
  rw [same, last]
  exact ⟨rfl, congrArg (·.span.stop.offset) last⟩

section

variable {settings : Settings} {main : FileId} {kept : FileTable → Prop}

/-- A branch starts with the tokens of its document. -/
theorem Branch.carries_start (hereditary : Hereditary property) {document : Document}
    (holds : ∀ token ∈ document.tokens, token.isEndOfInput = false → property token)
    {shared : Shared} (carries : shared.Carries property kept) :
    (Branch.start document shared).Carries property kept where
  stream := by
    rw [Branch.start, Stream.tokens_ofTokens]
    intro token member
    obtain ⟨read, inside, rfl⟩ := List.mem_map.mp member
    obtain ⟨inside, content⟩ := List.mem_filter.mp inside
    exact hereditary.withTicket (holds read inside (by simpa using content)) none
  output := fun _ member => nomatch member
  inclusions := fun _ member => nomatch member
  shared := carries

/-- The expansion of a document has tokens with the property. -/
theorem carries_expandWith (hereditary : Hereditary property)
    (supplies : Supplies settings.files main property kept) {nested : Nested}
    (below : nested.Carries main property kept) {document expanded : Document}
    {ancestors : List FileId} (inside : main ∈ ancestors)
    (holds : ∀ token ∈ document.tokens, token.isEndOfInput = false → property token)
    {shared later : Shared} (carries : shared.Carries property kept)
    (done : expandWith settings nested document ancestors shared = .ok (expanded, later)) :
    later.Carries property kept ∧ ∃ branch : Branch, branch.Carries property kept ∧
      expanded = branch.result settings.commands document := by
  obtain ⟨branch, ran, rfl, rfl⟩ := exists_run_of_expandWith done
  have ended := (Branch.carries_start hereditary holds carries).run hereditary supplies
    inside below ran
  exact ⟨⟨ended.shared.scope.popTo _, ended.shared.table⟩, branch, ended, rfl⟩

/-- Documents included at any depth have tokens with the property. -/
theorem carries_expandIncluded (hereditary : Hereditary property)
    (supplies : Supplies settings.files main property kept) (room : Nat) :
    (expandIncluded settings room).Carries main property kept := by
  induction room with
  | zero => exact nofun
  | succ room below =>
    intro reader same document ancestors shared inside holds carries expanded later done
    cases same
    obtain ⟨later, branch, ended, rfl⟩ :=
      carries_expandWith hereditary supplies below inside holds carries done
    exact ⟨(ended.result hereditary _ _).inlined, later⟩

/-- **A hereditary property of all tokens that come into an expansion** is one of all that its
branch comes to. -/
theorem carries_expand (hereditary : Hereditary property) {document expanded : Document}
    (supplies : Supplies settings.files document.fileId property kept)
    (holds : ∀ token ∈ document.tokens, token.isEndOfInput = false → property token)
    {scope : Scope} (bound : scope.Every (Macro.Yields property)) {table : FileTable}
    (filed : kept table)
    {reports : List Diagnostic}
    (done : (expand settings document scope table).outcome = .ok (expanded, reports)) :
    ∃ branch : Branch, branch.Carries property kept ∧
      expanded = branch.result settings.commands document := by
  unfold expand at done
  dsimp only at done
  split at done
  · cases done
  · rename_i found
    cases done
    exact (carries_expandWith hereditary supplies (carries_expandIncluded hereditary supplies _)
      (List.mem_singleton.mpr rfl) holds ⟨bound, filed⟩ found).2

end

end Expansion

end TexSource
