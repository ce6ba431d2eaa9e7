import TexSource.Proofs.Document.Derivation

/-!
# Nodes and their roles

What a node means depends on where it stands: a closing brace is stray in text, but not in a
group that is kept flat or in a verbatim body, and the `\end` of an environment is no stray one.
`Node.located` lists the nodes under a node with their roles, in the order in which they are
created: every node of the walk once, behind the nodes below it. `Node.code` lists the tokens
under a node without those of verbatim bodies.
-/

namespace TexSource

/-- Whether a token opens or closes a group. -/
def Token.isBrace (token : Token) : Bool :=
  token.isBeginGroup || token.isEndGroup

/-- A token is no brace if it opens no group and closes none. -/
theorem Token.isBrace_eq_false_iff {token : Token} :
    token.isBrace = false ↔ token.isBeginGroup = false ∧ token.isEndGroup = false :=
  Bool.or_eq_false_iff

/-- An opening brace is known by its kind. -/
theorem Token.kind_of_isBeginGroup {token : Token} (opens : token.isBeginGroup = true) :
    ∃ glyph, token.kind = .beginGroup glyph := by
  unfold isBeginGroup at opens
  cases kind : token.kind <;> simp_all

/-- A control word is known by its kind. -/
theorem Token.kind_of_isControlWord {token : Token} {word : Text}
    (isWord : token.isControlWord word = true) : token.kind = .controlWord word := by
  unfold isControlWord at isWord
  cases kind : token.kind <;> simp_all

/-- A certain character is known by its kind. -/
theorem Token.kind_of_isCharacter {token : Token} {character : Char}
    (same : token.isCharacter character = true) :
    ∃ category, token.kind = .character (.char character) category := by
  unfold Token.isCharacter at same
  cases kind : token.kind <;> simp_all

/-- A character that is read as such is no brace. -/
theorem Token.isBrace_of_isCharacter {token : Token} {character : Char}
    (same : token.isCharacter character = true) : token.isBrace = false := by
  obtain ⟨category, kind⟩ := kind_of_isCharacter same
  simp [isBrace, isBeginGroup, isEndGroup, kind]

/-- The role in which a node stands. -/
inductive Role where
  | text
  /-- In a group that is kept flat. -/
  | flattened
  | verbatim
  /-- The head of the named environment. -/
  | opening (name : Text)
  /-- The end of an environment. -/
  | ending
deriving DecidableEq

namespace Delimiter

/-- The role of the nodes directly in a group at a nesting level. -/
def contentRole (delimiter : Delimiter) (level : Nat) : Role :=
  if delimiter = brace && level = Parser.maxNesting then .flattened else .text

/-- The nesting level in a group at a nesting level; the root opens none. -/
def contentLevel (delimiter : Delimiter) (level : Nat) : Nat :=
  if delimiter = root then level else level + 1

end Delimiter

/-- The role of the nodes in the body of the named environment. -/
def CommandTable.bodyRole (commands : CommandTable) (name : Text) : Role :=
  if commands.isVerbatim name then .verbatim else .text

section

variable (commands : CommandTable)

mutual

/-- The nodes under a node at a nesting level with their roles, each behind those below it. -/
def Node.located (level : Nat) (role : Role) : Node → List (Role × Node)
  | .leaf id placed => [(role, .leaf id placed)]
  | .group id delimiter opener children closer span =>
    locatedAll (delimiter.contentLevel level) (delimiter.contentRole level) children ++
      [(role, .group id delimiter opener children closer span)]
  | .math id display opener children closer span =>
    locatedAll (level + 1) .text children ++ [(role, .math id display opener children closer span)]
  | .command invocation => invocation.located level role
  | .environment id name opening body none matched span =>
    opening.located level (.opening name) ++
      locatedAll (level + 1) (commands.bodyRole name) body ++
      [(role, .environment id name opening body none matched span)]
  | .environment id name opening body (some ending) matched span =>
    opening.located level (.opening name) ++
      locatedAll (level + 1) (commands.bodyRole name) body ++ ending.located level .ending ++
      [(role, .environment id name opening body (some ending) matched span)]
  | .inclusion id directive fileId path document span =>
    directive.located level role ++ [(role, .inclusion id directive fileId path document span)]

/-- The nodes under a command with their roles. -/
def Command.located (level : Nat) (role : Role) : Command → List (Role × Node)
  | ⟨id, name, head, star, arguments, span⟩ =>
    locatedArguments level arguments ++ [(role, .command ⟨id, name, head, star, arguments, span⟩)]

/-- The nodes under nodes with their roles. -/
def locatedAll (level : Nat) (role : Role) : List Node → List (Role × Node)
  | [] => []
  | node :: rest => node.located level role ++ locatedAll level role rest

/-- The nodes under arguments with their roles. -/
def locatedArguments (level : Nat) : List Argument → List (Role × Node)
  | [] => []
  | ⟨_, leading, content⟩ :: rest =>
    locatedAll level .text leading ++ content.located level .text ++ locatedArguments level rest

end

/-- The nodes of a document with their roles. -/
def Document.located (document : Document) : List (Role × Node) :=
  document.root.located commands 0 .text

variable {commands} {level : Nat} {role : Role}

@[simp] theorem locatedAll_cons (node : Node) (rest : List Node) :
    locatedAll commands level role (node :: rest) =
      node.located commands level role ++ locatedAll commands level role rest := rfl

@[simp] theorem locatedArguments_nil : locatedArguments commands level [] = [] := rfl

@[simp] theorem locatedArguments_cons (kind : ArgumentKind) (leading : List Node) (content : Node)
    (rest : List Argument) :
    locatedArguments commands level (⟨kind, leading, content⟩ :: rest) =
      locatedAll commands level .text leading ++ content.located commands level .text ++
        locatedArguments commands level rest := rfl

@[simp] theorem contentLevel_brace : Delimiter.contentLevel .brace level = level + 1 := rfl

@[simp] theorem contentLevel_bracket : Delimiter.contentLevel .bracket level = level + 1 := rfl

@[simp] theorem contentRole_bracket : Delimiter.contentRole .bracket level = .text := rfl

/-- In a group with room below it stands text. -/
theorem contentRole_of_lt {delimiter : Delimiter} (room : level < Parser.maxNesting) :
    delimiter.contentRole level = .text := by
  simp [Delimiter.contentRole, Nat.ne_of_lt room]

/-- A command stands behind the nodes of its arguments. -/
theorem Command.located_eq (invocation : Command) :
    invocation.located commands level role =
      locatedArguments commands level invocation.arguments ++ [(role, .command invocation)] := by
  cases invocation
  rfl

/-- An environment stands behind the nodes of its head, its body and its end. -/
theorem Node.located_environment (id : NodeId) (name : Text) (opening : Command)
    (body : List Node) (ending : Option Command) (matched : Bool) (span : Span) :
    (Node.environment id name opening body ending matched span).located commands level role =
      opening.located commands level (.opening name) ++
        locatedAll commands (level + 1) (commands.bodyRole name) body ++
        (ending.toList.flatMap fun ending => ending.located commands level .ending) ++
        [(role, .environment id name opening body ending matched span)] := by
  cases ending with
  | none => simp [Node.located]
  | some ending => simp [Node.located]

mutual

/-- The nodes with their roles are those of the walk. -/
theorem Node.located_perm_walk (level : Nat) (role : Role) : (node : Node) →
    ((node.located commands level role).map Prod.snd).Perm node.walk
  | .leaf id placed => .refl _
  | .group id delimiter opener children closer span => by
    have inside := locatedAll_perm_walkAll (delimiter.contentLevel level)
      (delimiter.contentRole level) children
    simpa [Node.located, Node.walk] using (List.perm_append_singleton _ _).trans (inside.cons _)
  | .math id display opener children closer span => by
    have inside := locatedAll_perm_walkAll (level + 1) .text children
    simpa [Node.located, Node.walk] using (List.perm_append_singleton _ _).trans (inside.cons _)
  | .command invocation => invocation.located_perm_walk level role
  | .environment id name opening body none matched span => by
    have head := opening.located_perm_walk level (.opening name)
    have inside := locatedAll_perm_walkAll (level + 1) (commands.bodyRole name) body
    have whole := head.append inside
    simpa [Node.located, Node.walk] using (List.perm_append_singleton _ _).trans (whole.cons _)
  | .environment id name opening body (some ending) matched span => by
    have head := opening.located_perm_walk level (.opening name)
    have inside := locatedAll_perm_walkAll (level + 1) (commands.bodyRole name) body
    have last := ending.located_perm_walk level .ending
    have whole := (head.append inside).append last
    simpa [Node.located, Node.walk] using (List.perm_append_singleton _ _).trans (whole.cons _)
  | .inclusion id directive fileId path document span => by
    have head := directive.located_perm_walk level role
    simpa [Node.located, Node.walk] using (List.perm_append_singleton _ _).trans (head.cons _)

/-- The nodes under a command are those of its walk. -/
theorem Command.located_perm_walk (level : Nat) (role : Role) : (invocation : Command) →
    ((invocation.located commands level role).map Prod.snd).Perm invocation.walk
  | ⟨id, name, head, star, arguments, span⟩ => by
    have inside := locatedArguments_perm_walkArguments level arguments
    simpa [Command.located, Command.walk] using
      (List.perm_append_singleton _ _).trans (inside.cons _)

/-- The nodes under nodes are those of their walk. -/
theorem locatedAll_perm_walkAll (level : Nat) (role : Role) : (nodes : List Node) →
    ((locatedAll commands level role nodes).map Prod.snd).Perm (walkAll nodes)
  | [] => .refl _
  | node :: rest => by
    have first := node.located_perm_walk level role
    have later := locatedAll_perm_walkAll level role rest
    simpa using first.append later

theorem locatedArguments_perm_walkArguments (level : Nat) : (arguments : List Argument) →
    ((locatedArguments commands level arguments).map Prod.snd).Perm (walkArguments arguments)
  | [] => .refl _
  | ⟨_, leading, content⟩ :: rest => by
    have before := locatedAll_perm_walkAll level .text leading
    have inside := content.located_perm_walk level .text
    have later := locatedArguments_perm_walkArguments level rest
    simpa [walkArguments] using before.append (inside.append later)

end

/-- Every node of a document has a role, and no other node has one. -/
theorem Document.mem_walk_iff {document : Document} {node : Node} :
    node ∈ document.walk ↔ ∃ role, (role, node) ∈ document.located commands := by
  have walked : ((document.located commands).map Prod.snd).Perm document.walk :=
    document.root.located_perm_walk 0 .text
  simp [← walked.mem_iff]

variable (commands level) in
/-- Leaves stand in the role of their sequence. -/
theorem locatedAll_leaves (role : Role) {tokens : List Token} {nodes : List Node}
    (leaves : Parser.Leaves tokens nodes) :
    ∀ located ∈ locatedAll commands level role nodes, ∃ id placed,
      located = (role, .leaf id placed) ∧ placed.token ∈ tokens := by
  induction leaves with
  | nil => exact nofun
  | cons id placed _ ih =>
    intro located member
    rcases List.mem_cons.mp member with rfl | member
    · exact ⟨id, placed, rfl, List.mem_cons_self⟩
    · obtain ⟨id, placed, same, inside⟩ := ih located member
      exact ⟨id, placed, same, List.mem_cons_of_mem _ inside⟩

end

namespace Parser

/-- What is picked from a list with one more entry. -/
theorem filterMap_concat {First Second : Type} (pick : First → Option Second) (list : List First)
    (last : First) :
    (list ++ [last]).filterMap pick = list.filterMap pick ++ (pick last).toList := by
  rw [List.filterMap_append]
  cases found : pick last <;> simp [found]

/-- The nodes of a piece with their roles. A command, a head and an end stand for the nodes of
their arguments. -/
@[simp] def Piece.located (commands : CommandTable) (level : Nat) : Piece → List (Role × Node)
  | .sequence _ nodes => locatedAll commands level .text nodes
  | .node content => content.located commands level .text
  | .bracket content => content.located commands level .text
  | .command invocation => locatedArguments commands level invocation.arguments
  | .arguments _ _ _ found => locatedArguments commands level found
  | .opening invocation _ => locatedArguments commands level invocation.arguments
  | .ending invocation _ => locatedArguments commands level invocation.arguments
  | .body name nodes => locatedAll commands (level + 1) (commands.bodyRole name) nodes
  | .behindBody found =>
    found.toList.flatMap fun found => found.1.located commands level .ending

variable {commands : CommandTable} {level : Nat} {mode : Mode} {role : Role}
  {ahead rest after : List Token} {token : Token} {invocation : Command} {name : Text}
  {reports : List Report}

/-- A command has the name of its token. -/
theorem Reads.name_command
    (read : Reads commands level mode (token :: rest) (.command invocation) after reports) :
    invocation.name = token.value := by
  cases read
  rfl

/-- A command starts with a control sequence. -/
theorem Reads.sequence_command
    (read : Reads commands level mode (token :: rest) (.command invocation) after reports) :
    token.isControlSequence = true := by
  cases read with
  | command _ _ sequence => exact sequence

/-- What begins an environment is a `\begin`. -/
theorem Reads.name_opening
    (read : Reads commands level mode ahead (.opening invocation name) after reports) :
    invocation.name = "begin" := by
  cases read
  rfl

/-- What ends it is an `\end`. -/
theorem Reads.name_ending
    (read : Reads commands level mode ahead (.ending invocation name) after reports) :
    invocation.name = "end" := by
  cases read <;> rfl

theorem value_of_isControlWord (word : token.isControlWord name = true) : token.value = name := by
  unfold Token.isControlWord at word
  split at word
  · rename_i kind
    simpa [Token.value, kind, Token.Kind.value] using word
  · cases word

/-- Only a control word is called like one of several letters. -/
theorem isControlWord_of_value (sequence : token.isControlSequence = true)
    (long : 1 < name.length) (value : token.value = name) : token.isControlWord name = true := by
  unfold Token.isControlSequence at sequence
  split at sequence
  · rename_i kind
    simpa [Token.isControlWord, Token.value, kind, Token.Kind.value] using value
  · rename_i glyph kind
    rw [← value, Token.value, kind] at long
    cases glyph <;> simp [Token.Kind.value] at long
  · cases sequence

/-- A command that is read as such is no `\end`. -/
theorem value_ne_end (sequence : token.isControlSequence = true)
    (plain : startsConstruct level mode token = false) : token.value ≠ "end" := by
  intro value
  have word := isControlWord_of_value sequence (by decide) value
  simp [startsConstruct, word] at plain

/-- An argument does not start with a closing brace. -/
theorem isEndGroup_of_accepted (accepted : cannotStartArgument token = false) :
    token.isEndGroup = false := by
  simp only [cannotStartArgument, Bool.or_eq_false_iff] at accepted
  simp [accepted]

/-- Whether a token is skipped before an argument. -/
def isSkipped (token : Token) : Bool :=
  token.isBlank || token.isComment

theorem isSkipped_of_isSpace (space : token.isSpace = true) : isSkipped token = true := by
  have kind : token.kind = .space := by simpa [Token.isSpace] using space
  simp [isSkipped, Token.isBlank, kind, Token.Kind.isBlank]

theorem isSkipped_of_isEndOfLine (ends : token.isEndOfLine = true) : isSkipped token = true := by
  have kind : token.kind = .endOfLine := by simpa [Token.isEndOfLine] using ends
  simp [isSkipped, Token.isBlank, kind, Token.Kind.isBlank]

theorem isSkipped_of_isComment (comment : token.isComment = true) : isSkipped token = true := by
  simp [isSkipped, comment]

/-- The blanks ahead may be passed over. -/
theorem skipped_spacesAhead (tokens : List Token) :
    ∀ token ∈ tokens.take (spacesAhead tokens), isSkipped token = true := by
  intro token member
  rw [spacesAhead, ← List.prefix_iff_eq_take.mp (List.takeWhile_prefix _)] at member
  exact isSkipped_of_isSpace (List.all_eq_true.mp List.all_takeWhile token member)

/-- What stands between two arguments may be passed over. -/
theorem skipped_gapAhead (lineEndSeen : Bool) (tokens : List Token) :
    ∀ token ∈ tokens.take (gapAhead lineEndSeen tokens), isSkipped token = true := by
  fun_induction gapAhead lineEndSeen tokens with
  | case1 => simp
  | case2 lineEndSeen token rest space ih =>
    rw [List.take_succ_cons, List.forall_mem_cons]
    exact ⟨isSkipped_of_isSpace space, ih⟩
  | case3 lineEndSeen token space comment =>
    simpa using isSkipped_of_isComment comment
  | case4 lineEndSeen token space comment next later ends ih =>
    rw [List.take_succ_cons, List.take_succ_cons, List.forall_mem_cons, List.forall_mem_cons]
    exact ⟨isSkipped_of_isComment comment, isSkipped_of_isEndOfLine ends, ih⟩
  | case5 lineEndSeen token space comment next later ends ih =>
    rw [List.take_succ_cons, List.forall_mem_cons]
    exact ⟨isSkipped_of_isComment comment, ih⟩
  | case6 lineEndSeen token rest space comment ends ih =>
    rw [Bool.and_eq_true] at ends
    rw [List.take_succ_cons, List.forall_mem_cons]
    exact ⟨isSkipped_of_isEndOfLine ends.1, ih⟩
  | case7 => simp

/-- No brace is passed over. -/
theorem isBrace_of_isSkipped (skipped : isSkipped token = true) : token.isBrace = false := by
  unfold isSkipped Token.isBlank Token.isComment at skipped
  unfold Token.isBrace Token.isBeginGroup Token.isEndGroup
  split at skipped
  · simp [*]
  · cases kind : token.kind <;> simp_all [Token.Kind.isBlank]

theorem isBrace_of_isControlSequence (sequence : token.isControlSequence = true) :
    token.isBrace = false := by
  unfold Token.isControlSequence at sequence
  unfold Token.isBrace Token.isBeginGroup Token.isEndGroup
  split at sequence
  · simp [*]
  · simp [*]
  · cases sequence

theorem isComment_of_opensMath (opens : opensMath token = true) : token.isComment = false := by
  unfold opensMath Token.isMathShift at opens
  unfold Token.isComment
  cases kind : token.kind <;> simp_all

theorem isBrace_of_opensMath (opens : opensMath token = true) : token.isBrace = false := by
  unfold opensMath Token.isMathShift at opens
  unfold Token.isBrace Token.isBeginGroup Token.isEndGroup
  cases kind : token.kind <;> simp_all

/-- What closes a bracket or a formula is a character, a math shift or a control symbol. -/
theorem kind_of_isAt {closing : Closing} (closes : closing.isAt token = true) :
    (∃ glyph catcode, token.kind = .character glyph catcode) ∨
      (∃ doubled, token.kind = .mathShift doubled) ∨
      ∃ glyph, token.kind = .controlSymbol glyph := by
  cases closing with
  | never => cases closes
  | bracket =>
    obtain ⟨category, kind⟩ := Token.kind_of_isCharacter closes
    exact .inl ⟨_, category, kind⟩
  | shift => exact .inr (.inl (kind_of_isMathShift closes))
  | displayShift => exact .inr (.inl ⟨true, by simpa [Closing.isAt] using closes⟩)
  | symbol glyph => exact .inr (.inr ⟨some glyph, by simpa [Closing.isAt] using closes⟩)

theorem isBrace_of_isAt {closing : Closing} (closes : closing.isAt token = true) :
    token.isBrace = false := by
  obtain ⟨_, _, kind⟩ | ⟨_, kind⟩ | ⟨_, kind⟩ := kind_of_isAt closes <;>
    simp [Token.isBrace, Token.isBeginGroup, Token.isEndGroup, kind]

/-- A token that starts no construct is no brace. -/
theorem isBrace_of_plain (plain : startsConstruct level mode token = false) :
    token.isBrace = false := by
  simp only [startsConstruct, Bool.or_eq_false_iff] at plain
  simp [Token.isBrace, plain]

end Parser

end TexSource
