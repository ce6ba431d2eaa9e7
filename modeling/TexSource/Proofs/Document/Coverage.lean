import TexSource.Proofs.Document.Built
import TexSource.Proofs.Lexer.Tiling

/-!
# The tree of a document covers its tokens

The nodes that are built until no token is left stand below the root. So the tree has every
token of the document but the end of input once (`Document.Coverage`), and the text of the
document is the text of the tokens that it was built from.
-/

namespace TexSource

namespace Document

/-- Tokens with an end of input added behind the last one if they lack one. -/
def terminated (tokens : List Token) (fileId : FileId) : List Token :=
  if tokens.any Token.isEndOfInput then tokens
  else tokens ++
    [Token.endOfInputAt ((tokens.getLast?.map (·.span.stop)).getD Position.start) fileId]

/-- Tokens with an end of input nowhere but at their end are their content and the end of
input. -/
theorem terminated_eq {tokens : List Token}
    (endsOnly : ∀ token ∈ tokens.dropLast, token.isEndOfInput = false) (fileId : FileId) :
    terminated tokens fileId = contentOf tokens ++ [endOf tokens fileId] := by
  rcases List.eq_nil_or_concat tokens with rfl | ⟨content, last, rfl⟩
  · rfl
  · rw [List.concat_eq_append, List.dropLast_concat] at endsOnly
    have inside : ∀ token ∈ content, (!token.isEndOfInput) = true := by
      simpa using endsOnly
    have before : content.find? Token.isEndOfInput = none := by
      simpa using endsOnly
    rw [List.concat_eq_append]
    cases ends : last.isEndOfInput with
    | true =>
      rw [terminated, if_pos (by simp [ends]), contentOf,
        List.takeWhile_append_of_pos inside, endOf, List.find?_append, before]
      simp [ends]
    | false =>
      have whole : contentOf (content ++ [last]) = content ++ [last] := by
        rw [contentOf, List.takeWhile_append_of_pos inside]
        simp [ends]
      have absent : (content ++ [last]).any Token.isEndOfInput = false := by
        simpa [ends] using endsOnly
      rw [terminated, if_neg (by simp [absent]), endOf, whole, List.find?_append, before]
      simp [ends]

theorem isEndOfInput_endOf (tokens : List Token) (fileId : FileId) :
    (endOf tokens fileId).isEndOfInput = true := by
  unfold endOf
  cases found : tokens.find? Token.isEndOfInput with
  | none => rfl
  | some token => exact List.find?_some found

/-- The text of terminated tokens. -/
theorem rawText_terminated (tokens : List Token) (fileId : FileId) :
    Token.rawText (terminated tokens fileId) = Token.rawText tokens := by
  unfold terminated
  split
  · rfl
  · simp [Token.endOfInputAt]

/-- A document covers the tokens it was built from. -/
structure Coverage (tokens : List Token) (document : Document) : Prop where
  /-- Its tokens are the given ones and an end of input, up to split math shifts. -/
  kept : Parser.Splits (terminated tokens document.fileId) document.tokens
  /-- The tree has every token but the end of input once, in their order. -/
  placed : document.root.placed.map Placed.token ++ [document.endOfInput] = document.tokens
  indices : document.root.placed.map Placed.index = List.range (document.tokens.length - 1)
  ends : document.endOfInput.isEndOfInput = true
  /-- The walk from the root has every node that was created once. -/
  ids : (document.walk.map Node.id).Perm (List.range (document.root.id + 1))
  arena : document.nodes.map Node.id = List.range (document.root.id + 1)
  ordered : ∀ node ∈ document.walk, ∀ child ∈ node.children, child.id < node.id
  /-- The text is the text of the tokens, with and without included documents. -/
  text : document.text ++ document.endOfInput.raw = Token.rawText tokens
  sourceText : document.sourceText = document.text
  lexed : ∀ table diagnostics,
    lex document.source table document.fileId = .ok (tokens, diagnostics) →
      document.text = document.source

/-- The text of lexed tokens is the source. -/
theorem rawText_of_lex {source : Text} {table : Catcode.Table} {fileId : FileId}
    {tokens : List Token} {diagnostics : List Diagnostic}
    (read : lex source table fileId = .ok (tokens, diagnostics)) :
    Token.rawText tokens = source := by
  obtain ⟨content, rfl, tiles⟩ := Lexer.tiles_of_lex read
  have reached : source = [] ++ Token.rawText content := tiles.reached_eq
  rw [Token.rawText_append, reached]
  simp [Token.endOfInputAt]

/-- The end of input of lexed tokens has no text. -/
theorem raw_endOf_of_lex {source : Text} {table : Catcode.Table} {fileId : FileId}
    {tokens : List Token} {diagnostics : List Diagnostic}
    (read : lex source table fileId = .ok (tokens, diagnostics)) :
    (endOf tokens fileId).raw = [] := by
  obtain ⟨content, rfl, tiles⟩ := Lexer.tiles_of_lex read
  unfold endOf
  cases found : (content ++ [Token.endOfInputAt (source.placeAt source.length) fileId]).find?
      Token.isEndOfInput with
  | none => rfl
  | some token =>
    have isEnd := List.find?_some found
    rcases List.mem_append.mp (List.mem_of_find?_eq_some found) with inside | last
    · obtain ⟨before, covers⟩ := tiles.covers_of_mem inside
      cases isEnd.symm.trans covers.content
    · rw [List.mem_singleton.mp last]
      rfl

/-- A document covers its tokens when what was built until no token was left stands below
its root. -/
theorem coverage_of_built {tokens : List Token} {document : Document} {children : List Node}
    {state : Parser.State} {span : Span}
    (endsOnly : ∀ token ∈ tokens.dropLast, token.isEndOfInput = false)
    (built : Parser.Built ⟨#[], contentOf tokens, 0, #[], false⟩ (placedAll children)
      (walkAll children) state) (read : state.rest = [])
    (listed : document.tokens = state.taken.toList ++ [endOf tokens document.fileId])
    (root : document.root = .group state.created .root none children none span) :
    Coverage tokens document := by
  have split := terminated_eq endsOnly document.fileId
  have last : document.endOfInput = endOf tokens document.fileId := by
    simp [Document.endOfInput, listed]
  have whole := built.toNumbered.create document.root (by rw [root]; rfl) (by rw [root]; rfl)
    (by rw [root]; rfl)
  have placed : document.root.placed = placedAll children := by simp [root, Node.placed]
  have taken : state.taken.toList = document.root.placed.map Placed.token := by
    simpa [placed] using built.taken
  have kept : Parser.Splits (contentOf tokens) (document.root.placed.map Placed.token) := by
    simpa [placed, read] using built.rest
  have text : document.text ++ document.endOfInput.raw = Token.rawText tokens := by
    rw [← rawText_terminated tokens document.fileId, split, Token.rawText_append,
      ← kept.rawText_eq, last]
    simp [Document.text, Node.text, Node.tokens]
  have ids : (document.walk.map Node.id).Perm (List.range (document.root.id + 1)) := by
    simpa [Document.walk, root, List.range_eq_range', Node.id] using whole.ids
  constructor
  case kept =>
    rw [split, listed, taken]
    exact kept.append (.refl _)
  case placed => rw [listed, taken, last]
  case indices =>
    have length := congrArg List.length taken
    have indices := built.indices
    rw [← placed] at indices
    rw [indices, listed, taken, List.range_eq_range']
    simp
  case ends =>
    rw [last]
    exact isEndOfInput_endOf tokens document.fileId
  case ids => exact ids
  case arena => exact nodes_ids_eq_range ids
  case ordered => exact whole.ordered
  case text => exact text
  case sourceText =>
    rw [document.sourceText_eq_rawText, document.inlined_eq,
      document.root.inlined_eq_placed whole.own]
    rfl
  case lexed =>
    intro table diagnostics lexed
    have empty := raw_endOf_of_lex lexed
    rwa [last, empty, List.append_nil, rawText_of_lex lexed] at text

/-- **Parser coverage.** Whatever the tokens are, if no end of input stands before the
last one, the document that is built from them covers them. -/
theorem coverage_ofTokens (tokens : List Token) (source : Text) (fileId : FileId)
    (commands : CommandTable)
    (endsOnly : ∀ token ∈ tokens.dropLast, token.isEndOfInput = false) :
    Coverage tokens (ofTokens tokens source fileId commands) := by
  have ends : (endOf tokens fileId).kind = .endOfInput := by
    simpa [Token.isEndOfInput] using isEndOfInput_endOf tokens fileId
  exact coverage_of_built endsOnly
    (Parser.built_nodesOf ⟨fileId, commands, endOf tokens fileId⟩ ends (contentOf tokens))
    (Parser.rest_nodesOf ..) rfl rfl

/-- The tokens of two formulas, the first of which ends with a doubled math shift. -/
def adjacentFormulas : List Token :=
  [⟨.mathShift false, "$", ⟨⟨1, 1, 0⟩, ⟨1, 2, 1⟩, 0⟩, false, none⟩,
    ⟨.character (.char 'a') .letter, "a", ⟨⟨1, 2, 1⟩, ⟨1, 3, 2⟩, 0⟩, false, none⟩,
    ⟨.mathShift true, "$$", ⟨⟨1, 3, 2⟩, ⟨1, 5, 4⟩, 0⟩, false, none⟩,
    ⟨.character (.char 'b') .letter, "b", ⟨⟨1, 5, 4⟩, ⟨1, 6, 5⟩, 0⟩, false, none⟩,
    ⟨.mathShift false, "$", ⟨⟨1, 6, 5⟩, ⟨1, 7, 6⟩, 0⟩, false, none⟩]

theorem coverage_adjacentFormulas :
    (∀ token ∈ adjacentFormulas.dropLast, token.isEndOfInput = false) ∧
      Coverage adjacentFormulas (ofTokens adjacentFormulas "$a$$b$" 0 .standard) :=
  ⟨by decide, coverage_ofTokens _ _ _ _ (by decide)⟩

end Document

end TexSource
