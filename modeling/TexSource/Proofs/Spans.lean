import TexSource.Proofs.Document.Rereading
import TexSource.Proofs.Document.Ways
import TexSource.Proofs.Expansion.Origins

/-!
# What spans say of the source

The tokens of a parsed document follow each other through its source, and every node stands for a
stretch of them. So the bytes of the source within a span are those of its token or node, save
where a span ends inside of a doubled math shift that was split: the place between the halves is
taken to be one byte behind the start of the first one, whatever glyph that is
(`Document.truthful_of_parse`).
-/

namespace TexSource

/-- The bytes of a source within the span of a node are those of the node. -/
def Node.Reproduces (source : Text) (node : Node) : Prop :=
  (Text.encode source).extract node.span.start.offset node.span.stop.offset =
    Text.encode node.text

instance (source : Text) (node : Node) : Decidable (node.Reproduces source) :=
  inferInstanceAs (Decidable (_ = _))

namespace Token

/-- A doubled math shift that was read from a source and whose first glyph takes more than one
byte. -/
def IsWideShift (source : Text) (shift : Token) : Prop :=
  shift.kind = .mathShift true ∧ shift.Reproduces source ∧
    1 < (Text.encode (shift.raw.take 1)).length

def IsWideFirst (source : Text) (token : Token) : Prop :=
  ∃ shift : Token, shift.IsWideShift source ∧ token = (Parser.splitShift shift).1

def IsWideSecond (source : Text) (token : Token) : Prop :=
  ∃ shift : Token, shift.IsWideShift source ∧ token = (Parser.splitShift shift).2

variable {source : Text} {token : Token}

theorem Reproduces.length (reproduces : token.Reproduces source) :
    min (token.span.stop.offset - token.span.start.offset)
      ((Text.encode source).length - token.span.start.offset) = (Text.encode token.raw).length := by
  rw [← reproduces, List.extract_eq_take_drop, List.length_take, List.length_drop]

/-- The span of the first half is too short for its text. -/
theorem IsWideFirst.not_reproduces (half : token.IsWideFirst source) :
    ¬ token.Reproduces source := by
  obtain ⟨shift, ⟨_, _, wide⟩, rfl⟩ := half
  intro reproduces
  have length : min (shift.span.start.offset + 1 - shift.span.start.offset) _ =
    (Text.encode (shift.raw.take 1)).length := reproduces.length
  omega

/-- The span of the second half is too long for its text. -/
theorem IsWideSecond.not_reproduces (half : token.IsWideSecond source) :
    ¬ token.Reproduces source := by
  obtain ⟨shift, ⟨_, whole, wide⟩, rfl⟩ := half
  intro reproduces
  have length : min (shift.span.stop.offset - (shift.span.start.offset + 1))
      ((Text.encode source).length - (shift.span.start.offset + 1)) =
    (Text.encode (shift.raw.drop 1)).length := reproduces.length
  have both := whole.length
  rw [← List.take_append_drop 1 shift.raw, Text.encode_append, List.length_append] at both
  omega

/-- A token starts and stops where it stands behind a text, save within a wide math shift. -/
structure StandsBehind (source behind : Text) (token : Token) : Prop where
  start : ¬ token.IsWideSecond source → token.span.start.offset = (Text.encode behind).length
  stop : ¬ token.IsWideFirst source →
    token.span.stop.offset = (Text.encode (behind ++ token.raw)).length

end Token

namespace Lexer

variable {source behind reached : Text} {token : Token}

/-- The place between the halves of a math shift is one byte behind its start: this is right unless
the shift is wide. -/
theorem Covers.standsBehind_halves (covers : Covers source behind token)
    (within : behind ++ token.raw <+: source) (doubled : token.kind = .mathShift true) :
    (Parser.splitShift token).1.StandsBehind source behind ∧
      (Parser.splitShift token).2.StandsBehind source (behind ++ token.raw.take 1) := by
  obtain ⟨start, stop⟩ := covers.offsets within
  have known := covers.reproduces within
  have middle (narrow : ¬ 1 < (Text.encode (token.raw.take 1)).length) :
      token.span.start.offset + 1 = (Text.encode (behind ++ token.raw.take 1)).length := by
    obtain ⟨glyph, rest, raw⟩ := List.exists_cons_of_ne_nil covers.nonempty
    have filled := Text.byteWidth_pos glyph
    have single : (Text.encode (token.raw.take 1)).length = glyph.byteWidth := by simp [raw]
    rw [single] at narrow
    rw [Text.encode_append, List.length_append, single, start]
    omega
  constructor
  · refine ⟨fun _ => start, fun other => middle fun wide => ?_⟩
    exact other ⟨token, ⟨doubled, known, wide⟩, rfl⟩
  · refine ⟨fun other => middle fun wide => ?_, fun _ => ?_⟩
    · exact other ⟨token, ⟨doubled, known, wide⟩, rfl⟩
    · have both : behind ++ token.raw.take 1 ++ token.raw.drop 1 = behind ++ token.raw := by
        rw [List.append_assoc, List.take_append_drop]
      change token.span.stop.offset = (Text.encode (_ ++ token.raw.drop 1)).length
      rw [both, stop]

/-- Tokens that tile a part of the source stand behind each other, with math shifts split or
not. -/
theorem Tiles.standsBehind {tokens others : List Token} (splits : Parser.Splits tokens others)
    (tiles : Tiles source behind tokens reached) (within : reached <+: source)
    {before after : List Token} (listed : others = before ++ token :: after) :
    token.StandsBehind source (behind ++ Token.rawText before) := by
  induction splits generalizing behind before with
  | nil => simp at listed
  | keep first later ih =>
    obtain - | ⟨covers, tiles⟩ := tiles
    have inside : behind ++ first.raw <+: source := .trans ⟨_, tiles.reached_eq.symm⟩ within
    cases before with
    | nil =>
      obtain ⟨rfl, rfl⟩ := List.cons.inj listed
      obtain ⟨start, stop⟩ := covers.offsets inside
      rw [Token.rawText_nil, List.append_nil]
      exact ⟨fun _ => start, fun _ => stop⟩
    | cons head before =>
      obtain ⟨rfl, rest⟩ := List.cons.inj listed
      simpa using ih tiles rest
  | @split shift doubled _ _ later ih =>
    obtain - | ⟨covers, tiles⟩ := tiles
    have inside : behind ++ shift.raw <+: source := .trans ⟨_, tiles.reached_eq.symm⟩ within
    obtain ⟨first, second⟩ := covers.standsBehind_halves inside doubled
    -- The token is one of the halves, or stands behind both.
    match before with
    | [] =>
      obtain ⟨rfl, rfl⟩ := List.cons.inj listed
      simpa using first
    | [_] =>
      obtain ⟨rfl, others⟩ := List.cons.inj listed
      obtain ⟨rfl, rfl⟩ := List.cons.inj others
      simpa [Parser.splitShift] using second
    | _ :: _ :: before =>
      obtain ⟨rfl, others⟩ := List.cons.inj listed
      obtain ⟨rfl, rest⟩ := List.cons.inj others
      have stands := ih tiles rest
      have both : behind ++ Token.rawText ((Parser.splitShift shift).1 ::
          (Parser.splitShift shift).2 :: before) = behind ++ shift.raw ++ Token.rawText before := by
        rw [Token.rawText_cons, Token.rawText_cons, ← List.append_assoc _ _ (Token.rawText before),
          Parser.raw_splitShift, List.append_assoc]
      rwa [both]

/-- Tokens that tile the source up to its end go from its start to its end. -/
theorem Tiles.ends {content : List Token} (tiles : Tiles source [] content source)
    (fileId : FileId) :
    (content.head?.getD (.endOfInputAt (source.placeAt source.length) fileId)).span.start =
        Position.start ∧
      (content.getLast?.getD (.endOfInputAt (source.placeAt source.length) fileId)).span.stop =
        source.placeAt source.length := by
  have whole := tiles.reached_eq
  rcases List.eq_nil_or_concat content with rfl | ⟨before, last, rfl⟩
  · rw [whole]
    exact ⟨rfl, rfl⟩
  · rw [List.concat_eq_append] at tiles whole ⊢
    have reached : [] ++ Token.rawText before ++ last.raw = source := by simpa using whole.symm
    rw [List.getLast?_concat, Option.getD_some, tiles.covers_of_split.stop, reached]
    refine ⟨?_, rfl⟩
    cases before with
    | nil | cons =>
      obtain - | ⟨covers, -⟩ := tiles
      exact covers.start

end Lexer

namespace Node

/-- A node has its text where its first token starts and its last one stops. -/
theorem Framed.reproduces {source : Text} {node : Node} {front rear : List Token}
    (framed : node.Framed) (whole : source = Token.rawText (front ++ node.tokens ++ rear))
    (stands : ∀ before token after, front ++ node.tokens ++ rear = before ++ token :: after →
      token.StandsBehind source (Token.rawText before))
    (opens : ∀ first ∈ node.placed.head?, ¬ first.token.IsWideSecond source)
    (closes : ∀ last ∈ node.placed.getLast?, ¬ last.token.IsWideFirst source) :
    node.Reproduces source := by
  obtain ⟨first, last, head, tail, start, stop⟩ := framed
  obtain ⟨more, headed⟩ := List.head?_eq_some_iff.mp head
  obtain ⟨init, ended⟩ := List.getLast?_eq_some_iff.mp tail
  have starts := (stands front first.token (more.map Placed.token ++ rear)
    (by simp [tokens, headed])).start (opens first head)
  have stops := (stands (front ++ init.map Placed.token) last.token rear
    (by simp [tokens, ended])).stop (closes last tail)
  have reached : Token.rawText (front ++ init.map Placed.token) ++ last.token.raw =
      Token.rawText front ++ node.text := by
    simp [text, tokens, ended]
  rw [Reproduces, start, stop, starts, stops, reached, whole, Token.rawText_append,
    Token.rawText_append]
  exact Text.extract_encode ..

end Node

namespace Document

/-- The tokens of a document are laid along a source, from its start to its end. -/
structure LaidAlong (source : Text) (document : Document) : Prop where
  whole : source = Token.rawText document.root.tokens
  stands : ∀ before token after, document.root.tokens = before ++ token :: after →
    token.StandsBehind source (Token.rawText before)
  listed : document.tokens = document.root.tokens ++
    [Token.endOfInputAt (source.placeAt source.length) document.fileId]
  start : document.root.span.start = Position.start
  stop : document.root.span.stop = source.placeAt source.length
  framed : ∀ node ∈ document.walk, node.placed ≠ [] → node.Framed
  root : ∀ node ∈ document.walk, node.placed = [] → node = document.root

theorem stop_of_splits {tokens others : List Token} (splits : Parser.Splits tokens others)
    (last : Token) :
    (others.getLast?.getD last).span.stop = (tokens.getLast?.getD last).span.stop := by
  induction splits generalizing last with
  | nil => rfl
  | keep token later ih =>
    rw [List.getLast?_cons, List.getLast?_cons]
    exact ih token
  | @split token doubled tokens others later ih =>
    rw [List.getLast?_cons, List.getLast?_cons, List.getLast?_cons]
    refine (ih _).trans ?_
    cases tokens.getLast? <;> rfl

/-- A root with the places of its first and its last token is framed, unless there is none. -/
theorem framed_root {root : Node} (last : Token) (present : root.placed ≠ [])
    (start : root.span.start = (root.tokens.head?.getD last).span.start)
    (stop : root.span.stop = (root.tokens.getLast?.getD last).span.stop) : root.Framed := by
  obtain ⟨first, rest, placed⟩ := List.exists_cons_of_ne_nil present
  refine ⟨first, root.placed.getLast present, by rw [placed]; rfl,
    List.getLast?_eq_some_getLast present, ?_, ?_⟩
  · rw [start, Node.tokens, placed]
    rfl
  · rw [stop, Node.tokens, List.getLast?_map, List.getLast?_eq_some_getLast present]
    rfl

/-- What is built from tokens whose content tiles a source up to its end. -/
theorem laidAlong_of_tiles {source : Text} {tokens : List Token} {fileId : FileId}
    (tiles : Lexer.Tiles source [] (contentOf tokens) source)
    (last : endOf tokens fileId = .endOfInputAt (source.placeAt source.length) fileId)
    (commands : CommandTable) : (ofTokens tokens source fileId commands).LaidAlong source := by
  obtain ⟨starts, stops⟩ := tiles.ends fileId
  rw [← last] at starts stops
  obtain ⟨splits, listed, -⟩ := splits_placed tokens source fileId commands
  have built := Parser.built_nodesOf ⟨fileId, commands, endOf tokens fileId⟩ (by rw [last]; rfl)
    (contentOf tokens)
  have start : (ofTokens tokens source fileId commands).root.span.start = Position.start := starts
  have stop : (ofTokens tokens source fileId commands).root.span.stop =
      source.placeAt source.length := congrArg (·.span.stop) last
  constructor
  case whole => exact tiles.reached_eq.trans splits.rawText_eq.symm
  case stands =>
    intro before token after listed
    exact tiles.standsBehind splits List.prefix_rfl listed
  case listed => exact last ▸ listed
  case start => exact start
  case stop => exact stop
  case framed =>
    intro node member present
    rcases List.mem_cons.mp member with rfl | inside
    · refine framed_root (endOf tokens fileId) present ?_ ?_
      · exact start.trans (starts.symm.trans (start_of_splits splits _).symm)
      · exact stop.trans (stops.symm.trans (stop_of_splits splits _).symm)
    · exact built.framed node inside
  case root =>
    intro node member none
    rcases List.mem_cons.mp member with rfl | inside
    · rfl
    · obtain ⟨first, last, head, -⟩ := built.framed node inside
      rw [none] at head
      cases head

/-- The content of lexed tokens tiles the source, and they end at its end. -/
theorem tiles_contentOf_of_lex {source : Text} {table : Catcode.Table} {fileId : FileId}
    {tokens : List Token} {reports : List Diagnostic}
    (read : lex source table fileId = .ok (tokens, reports)) :
    Lexer.Tiles source [] (contentOf tokens) source ∧
      endOf tokens fileId = .endOfInputAt (source.placeAt source.length) fileId := by
  obtain ⟨content, rfl, tiles⟩ := Lexer.tiles_of_lex read
  have inside : ∀ token ∈ content, token.isEndOfInput = false := by
    intro token member
    obtain ⟨before, covers⟩ := tiles.covers_of_mem member
    exact covers.content
  rw [contentOf_concat inside rfl, endOf_concat inside rfl]
  exact ⟨tiles, rfl⟩

/-- What the spans of a document say of a source: where its tokens and nodes stand. -/
structure Truthful (source : Text) (document : Document) : Prop where
  /-- All tokens but the halves of wide math shifts have the bytes in their spans. -/
  tokens : ∀ token ∈ document.tokens, token.Reproduces source ↔
    ¬ (token.IsWideFirst source ∨ token.IsWideSecond source)
  root : document.root.Reproduces source
  /-- A node has the bytes in its span if neither of its ends lies in a wide math shift. -/
  nodes : ∀ node ∈ document.walk, (∀ first ∈ node.placed.head?, ¬ first.token.IsWideSecond source) →
    (∀ last ∈ node.placed.getLast?, ¬ last.token.IsWideFirst source) → node.Reproduces source
  /-- The span of a node goes from its first token to its last one. Without any tokens is at most
  the root. -/
  framed : source ≠ [] → ∀ node ∈ document.walk, node.Framed

namespace LaidAlong

variable {source : Text} {document : Document}

theorem root_reproduces (laid : document.LaidAlong source) : document.root.Reproduces source := by
  have stop : (source.placeAt source.length).offset = (Text.encode source).length := by
    simp [Text.placeAt]
  rw [Node.Reproduces, laid.start, laid.stop, stop, Node.text, ← laid.whole,
    List.extract_eq_take_drop]
  exact List.take_length

theorem token_reproduces (laid : document.LaidAlong source) {token : Token}
    (member : token ∈ document.tokens) (first : ¬ token.IsWideFirst source)
    (second : ¬ token.IsWideSecond source) : token.Reproduces source := by
  rw [laid.listed] at member
  rcases List.mem_append.mp member with inside | last
  · obtain ⟨before, after, listed⟩ := List.append_of_mem inside
    have stands := laid.stands before token after listed
    have whole : source = Token.rawText before ++ token.raw ++ Token.rawText after := by
      rw [laid.whole, listed]
      simp
    rw [Token.Reproduces, stands.start second, stands.stop first, whole]
    exact Text.extract_encode ..
  · rw [List.mem_singleton.mp last]
    simp [Token.Reproduces, Token.endOfInputAt, Span.emptyAt]

theorem node_reproduces (laid : document.LaidAlong source) {node : Node}
    (member : node ∈ document.walk)
    (opens : ∀ first ∈ node.placed.head?, ¬ first.token.IsWideSecond source)
    (closes : ∀ last ∈ node.placed.getLast?, ¬ last.token.IsWideFirst source) :
    node.Reproduces source := by
  by_cases none : node.placed = []
  · rw [laid.root node member none]
    exact laid.root_reproduces
  · obtain ⟨front, rear, placed⟩ := Node.placed_infix_of_mem_walk member
    have tokens : document.root.tokens =
        front.map Placed.token ++ node.tokens ++ rear.map Placed.token := by
      simp [Node.tokens, ← placed]
    exact (laid.framed node member none).reproduces (tokens ▸ laid.whole) (tokens ▸ laid.stands)
      opens closes

theorem truthful (laid : document.LaidAlong source) : document.Truthful source where
  tokens token member := by
    constructor
    · rintro reproduces (first | second)
      · exact first.not_reproduces reproduces
      · exact second.not_reproduces reproduces
    · intro whole
      exact laid.token_reproduces member (fun first => whole (.inl first))
        fun second => whole (.inr second)
  root := laid.root_reproduces
  nodes node member := laid.node_reproduces member
  framed filled node member := by
    apply laid.framed node member
    intro none
    have root := laid.root node member none
    apply filled
    rw [laid.whole, Node.tokens, ← root, none]
    rfl

end LaidAlong

/-- **Spans.** Whatever a source is parsed with, the spans of its document say where its tokens and
nodes stand in it, but for the place between the halves of a wide math shift. -/
theorem truthful_of_parse {source : Text} {table : Catcode.Table} {commands : CommandTable}
    {fileId : FileId} {document : Document}
    (parsed : parse source table commands fileId = .ok document) : document.Truthful source := by
  obtain ⟨tokens, reports, diagnostics, read, rfl⟩ := Expansion.document_of_parse parsed
  obtain ⟨tiles, last⟩ := tiles_contentOf_of_lex read
  obtain ⟨tokens, root, nodes, framed⟩ := (laidAlong_of_tiles tiles last commands).truthful
  exact ⟨tokens, root, nodes, framed⟩

/-- Formulas between accented letters. -/
def accentedFormulas : Text := "éaéébé"

/-- A table that makes an accented letter a math shift. -/
def accentedShift : Catcode.Table :=
  .ofOverrides [((Glyph.char 'é').code, .mathShift)]

theorem truthful_accentedFormulas :
    ∃ document, parse accentedFormulas accentedShift .standard 0 = .ok document ∧
      document.Truthful accentedFormulas := by
  have read : (parse accentedFormulas accentedShift .standard 0).toOption.isSome = true := by
    decide +kernel
  cases parsed : parse accentedFormulas accentedShift .standard 0 with
  | error failure =>
    rw [parsed] at read
    cases read
  | ok document => exact ⟨document, rfl, truthful_of_parse parsed⟩

/-- The first formula between accented letters stops within its last letter, and the second one
starts there. -/
theorem not_reproduces_accentedFormulas :
    ∃ document, parse accentedFormulas accentedShift .standard 0 = .ok document ∧
      (∃ token ∈ document.tokens, ¬ token.Reproduces accentedFormulas) ∧
        ∃ node ∈ document.walk, ¬ node.Reproduces accentedFormulas := by
  have differs : (parse accentedFormulas accentedShift .standard 0).toOption.map (fun document =>
      (document.tokens.any fun token => decide (¬ token.Reproduces accentedFormulas),
        document.walk.any fun node => decide (¬ node.Reproduces accentedFormulas))) =
          some (true, true) := by decide +kernel
  cases parsed : parse accentedFormulas accentedShift .standard 0 with
  | error failure =>
    rw [parsed] at differs
    cases differs
  | ok document =>
    rw [parsed] at differs
    obtain ⟨tokens, nodes⟩ := Prod.mk.inj (Option.some.inj differs)
    simp only [List.any_eq_true, decide_eq_true_eq] at tokens nodes
    exact ⟨document, rfl, tokens, nodes⟩

end Document

end TexSource
