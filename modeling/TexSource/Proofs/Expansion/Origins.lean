import TexSource.Proofs.Expansion.Printed
import TexSource.Proofs.Highlight

/-!
# What the tokens of a document's own file reproduce

A token that was read from a source has the bytes of the source between the ends of its
span (`Token.Reproduces`). An expansion adds two kinds of tokens to those that name the
document's file and are not marked as expanded. A half of a doubled math shift has a span that
takes the first glyph of the shift to be one byte wide; and a token of a default argument has
the span that it had where the default was written, which for a macro of the initial scope is
another source. All other tokens still reproduce the source (`Expansion.origin_of_own`).
-/

namespace TexSource

/-- The bytes of a source within the span of a token are those of the token. -/
def Token.Reproduces (source : Text) (token : Token) : Prop :=
  (Text.encode source).extract token.span.start.offset token.span.stop.offset =
    Text.encode token.raw

instance (source : Text) (token : Token) : Decidable (token.Reproduces source) :=
  inferInstanceAs (Decidable (_ = _))

/-- The bytes between the ends of a part of a text are those of the part. -/
theorem Text.extract_encode (behind text ahead : Text) :
    (encode (behind ++ text ++ ahead)).extract (encode behind).length
      (encode (behind ++ text)).length = encode text := by
  simp

/-- A token that covers a stretch of the source reproduces it. -/
theorem Lexer.Covers.reproduces {source behind : Text} {token : Token}
    (covers : Covers source behind token) (within : behind ++ token.raw <+: source) :
    token.Reproduces source := by
  obtain ⟨start, stop⟩ := covers.offsets within
  obtain ⟨ahead, rfl⟩ := within
  rw [Token.Reproduces, start, stop]
  exact Text.extract_encode behind token.raw ahead

/-- The tokens of a source reproduce it. -/
theorem Lexer.reproduces_of_lex {source : Text} {table : Catcode.Table} {fileId : FileId}
    {tokens : List Token} {reports : List Diagnostic}
    (read : lex source table fileId = .ok (tokens, reports)) :
    ∀ token ∈ tokens, token.isEndOfInput = false → token.Reproduces source := by
  obtain ⟨content, rfl, tiles⟩ := Lexer.tiles_of_lex read
  intro token member inside
  rcases List.mem_append.mp member with member | last
  · obtain ⟨before, after, rfl⟩ := List.append_of_mem member
    have covers := tiles.covers_of_split
    have whole : source = Token.rawText before ++ token.raw ++ Token.rawText after := by
      simpa using tiles.reached_eq
    rw [List.nil_append] at covers
    exact covers.reproduces ⟨_, whole.symm⟩
  · rw [List.mem_singleton.mp last] at inside
    cases inside

/-- A token comes of another by nothing but tickets and the split of a doubled math shift. -/
inductive Token.ComesOf (origin : Token) : Token → Prop where
  | whole (ticket : Option Nat) : ComesOf origin { origin with ticket }
  | first (doubled : origin.kind = .mathShift true) (ticket : Option Nat) :
      ComesOf origin { (Parser.splitShift origin).1 with ticket }
  | second (doubled : origin.kind = .mathShift true) (ticket : Option Nat) :
      ComesOf origin { (Parser.splitShift origin).2 with ticket }

namespace Token.ComesOf

variable {origin token : Token}

theorem withTicket (comes : origin.ComesOf token) (ticket : Option Nat) :
    origin.ComesOf { token with ticket } := by
  cases comes with
  | whole => exact .whole ticket
  | first doubled => exact .first doubled ticket
  | second doubled => exact .second doubled ticket

/-- Halves are not split again. -/
theorem halves (comes : origin.ComesOf token) (doubled : token.kind = .mathShift true) :
    origin.ComesOf (Parser.splitShift token).1 ∧ origin.ComesOf (Parser.splitShift token).2 := by
  cases comes with
  | whole ticket =>
    exact ⟨@Token.ComesOf.first origin doubled none, @Token.ComesOf.second origin doubled none⟩
  | first => cases doubled
  | second => cases doubled

end Token.ComesOf

/-- A half of a doubled math shift that was read from a source and whose first glyph takes more
than one byte. -/
def Token.IsWideHalf (source : Text) (token : Token) : Prop :=
  ∃ shift : Token, shift.kind = .mathShift true ∧ shift.Reproduces source ∧
    1 < (Text.encode (shift.raw.take 1)).length ∧ shift.ComesOf token ∧
    token.kind = .mathShift false

/-- The halves of a doubled math shift reproduce the source, unless its first glyph takes more
than one byte. -/
theorem Parser.reproduces_splitShift {source : Text} {shift : Token} (written : shift.raw ≠ [])
    (reproduces : shift.Reproduces source)
    (narrow : (Text.encode (shift.raw.take 1)).length ≤ 1) :
    (Parser.splitShift shift).1.Reproduces source ∧
      (Parser.splitShift shift).2.Reproduces source := by
  obtain ⟨glyph, rest, raw⟩ := List.exists_cons_of_ne_nil written
  have single : glyph.bytes.length = 1 := by
    have wide := Text.byteWidth_pos glyph
    simp [raw] at narrow
    rw [Text.length_bytes]
    omega
  obtain ⟨byte, bytes⟩ := List.length_eq_one_iff.mp single
  rw [Token.Reproduces, raw, Text.encode_cons, bytes, List.singleton_append,
    List.extract_eq_take_drop] at reproduces
  have extent : 0 < shift.span.stop.offset - shift.span.start.offset := by
    by_contra none
    rw [Nat.eq_zero_of_not_pos none] at reproduces
    cases reproduces
  obtain ⟨extra, reach⟩ := Nat.exists_eq_add_of_lt extent
  rw [reach, Nat.zero_add] at reproduces
  have ahead : (Text.encode source).drop shift.span.start.offset =
      byte :: (Text.encode source).drop (shift.span.start.offset + 1) := by
    cases ahead : (Text.encode source).drop shift.span.start.offset with
    | nil =>
      rw [ahead] at reproduces
      cases reproduces
    | cons first later =>
      rw [ahead, List.take_succ_cons] at reproduces
      rw [(List.cons.inj reproduces).1, ← List.drop_drop, ahead]
      rfl
  rw [ahead, List.take_succ_cons, List.cons.injEq] at reproduces
  constructor
  · simp [Token.Reproduces, Parser.splitShift, raw, bytes, ahead]
  · have rest : shift.span.stop.offset - (shift.span.start.offset + 1) = extra := by omega
    simp [Token.Reproduces, Parser.splitShift, raw, rest, reproduces.2]

/-- What comes of a token that reproduces a source does so too, or is a wide half. -/
theorem Token.ComesOf.reproduces {source : Text} {origin token : Token}
    (comes : origin.ComesOf token) (written : token.raw ≠ []) (known : origin.Reproduces source) :
    token.Reproduces source ∨ token.IsWideHalf source := by
  have origins : token.kind = .mathShift false → origin.kind = .mathShift true →
      1 < (Text.encode (origin.raw.take 1)).length → token.IsWideHalf source :=
    fun half doubled wide => ⟨origin, doubled, known, wide, comes, half⟩
  rcases Nat.lt_or_ge 1 (Text.encode (origin.raw.take 1)).length with wide | narrow
  · cases comes with
    | whole => exact .inl known
    | first doubled => exact .inr (origins rfl doubled wide)
    | second doubled => exact .inr (origins rfl doubled wide)
  · cases comes with
    | whole => exact .inl known
    | first =>
      have filled : origin.raw ≠ [] := fun empty => written (by simp [Parser.splitShift, empty])
      exact .inl (Parser.reproduces_splitShift filled known narrow).1
    | second =>
      have filled : origin.raw ≠ [] := fun empty => written (by simp [Parser.splitShift, empty])
      exact .inl (Parser.reproduces_splitShift filled known narrow).2

/-- The end of input of tokens that hold one is among them. -/
theorem Document.endOf_mem {tokens : List Token} {token : Token} (member : token ∈ tokens)
    (ends : token.isEndOfInput = true) (fileId : FileId) : endOf tokens fileId ∈ tokens := by
  obtain ⟨first, found⟩ := Option.isSome_iff_exists.mp
    (List.find?_isSome.mpr ⟨token, member, ends⟩)
  rw [endOf, found]
  exact List.mem_of_find?_eq_some found

/-- A token of a default argument of a macro that is bound in a scope, be it hidden or not. -/
def Scope.Defaults (scope : Scope) (token : Token) : Prop :=
  ∃ layer ∈ scope.layers, ∃ binding ∈ layer, ∃ tokens,
    .optional tokens ∈ binding.2.parameters ∧ token ∈ tokens

namespace Expansion

/-- A token that names a file as its own comes of one that reproduces the source of the file, or
that a default of a scope holds. -/
def Originates (source : Text) (fileId : FileId) (scope : Scope) (token : Token) : Prop :=
  Highlight.isOwn fileId token = true →
    ∃ origin, origin.ComesOf token ∧ (origin.Reproduces source ∨ scope.Defaults origin)

variable {source : Text} {fileId : FileId} {scope : Scope}

theorem hereditary_originates (source : Text) (fileId : FileId) (scope : Scope) :
    Hereditary (Originates source fileId scope) where
  markExpanded _ own := by simp [Highlight.isOwn, Token.markExpanded] at own
  opener _ own := by simp [Highlight.isOwn] at own
  closer _ own := by simp [Highlight.isOwn] at own
  withTicket originates ticket own := by
    obtain ⟨origin, comes, known⟩ := originates own
    exact ⟨origin, comes.withTicket ticket, known⟩
  halves {token} doubled originates := by
    have whole : ∀ half : Token, half.expanded = token.expanded →
        half.span.fileId = token.span.fileId → (token.raw = [] → half.raw = []) →
        Highlight.isOwn fileId half = true → Highlight.isOwn fileId token = true := by
      intro half expanded file written own
      simp only [Highlight.isOwn, expanded, file, Bool.and_eq_true, decide_eq_true_eq] at own ⊢
      exact ⟨⟨own.1.1, fun empty => own.1.2 (written empty)⟩, own.2⟩
    constructor
    · intro own
      obtain ⟨origin, comes, known⟩ := originates
        (whole (Parser.splitShift token).1 rfl rfl
        (fun empty => by simp [Parser.splitShift, empty]) own)
      exact ⟨origin, (comes.halves doubled).1, known⟩
    · intro own
      obtain ⟨origin, comes, known⟩ := originates
        (whole (Parser.splitShift token).2 rfl rfl
        (fun empty => by simp [Parser.splitShift, empty]) own)
      exact ⟨origin, (comes.halves doubled).2, known⟩

/-- What the macros of the scope write originates so: their replacements are marked. -/
theorem yields_originates (source : Text) (fileId : FileId) (scope : Scope) :
    scope.Every (Macro.Yields (Originates source fileId scope)) := by
  intro layer member binding bound
  constructor
  · intro token _ own
    simp [Highlight.isOwn, Token.markExpanded] at own
  · intro tokens optional token inside _
    exact ⟨token, .whole token.ticket,
      .inr ⟨layer, member, binding, bound, tokens, optional, inside⟩⟩

/-- The tokens of the document that a branch comes to originate as the branch's do. -/
theorem Branch.Carries.originates_result {kept : FileTable → Prop} {branch : Branch}
    (carries : branch.Carries (Originates source fileId scope) kept) (commands : CommandTable)
    (document : Document) :
    ∀ token ∈ (branch.result commands document).tokens, token.raw ≠ [] →
      Originates source fileId scope token := by
  intro token member written
  have hereditary := hereditary_originates source fileId scope
  have last : ({ kind := .endOfInput, raw := [], span := document.endOfInput.span } : Token) ∈
      branch.output.toList ++
        [{ kind := .endOfInput, raw := [], span := document.endOfInput.span }] :=
    List.mem_append_right _ (List.mem_singleton.mpr rfl)
  have listed := (Document.splits_placed (branch.output.toList ++
    [{ kind := .endOfInput, raw := [], span := document.endOfInput.span }]) document.source
    document.fileId commands).2.1
  have member : token ∈ (Document.ofTokens (branch.output.toList ++
    [{ kind := .endOfInput, raw := [], span := document.endOfInput.span }]) document.source
    document.fileId commands).tokens := member
  rw [listed] at member
  rcases List.mem_append.mp member with placed | ends
  · have carried := (carries.result hereditary commands document).placed
    rw [Branch.result, splice, placed_spliceNode] at carried
    exact carried token placed
  · have inside := Document.endOf_mem last rfl document.fileId
    rw [← List.mem_singleton.mp ends] at inside
    rcases List.mem_append.mp inside with output | last
    · exact carries.output token output
    · rw [List.mem_singleton.mp last] at written
      exact absurd rfl written

/-- **Tokens of the own file.** Whatever a source is expanded with, a token of the outcome that is
not marked as expanded, is not empty, and names the file of the source reproduces the source;
unless it is a half of a doubled math shift whose first glyph takes more than one byte, or comes of
a default argument of the initial scope. -/
theorem origin_of_own {table : Catcode.Table} {commands : CommandTable} {document : Document}
    (parsed : Document.parse source table commands fileId = .ok document) (files : FileSystem)
    (limits : Limits) (others : CommandTable) (scope : Scope) {fileTable : FileTable}
    (arises : fileTable.Arises) {expanded : Document} {reports : List Diagnostic}
    (done : (expand ⟨files, limits, others⟩ document scope fileTable).outcome =
      .ok (expanded, reports)) :
    expanded.source = source ∧ expanded.fileId = fileId ∧
      ∀ token ∈ expanded.tokens, token.expanded = false → token.raw ≠ [] →
        token.span.fileId = fileId →
        token.Reproduces source ∨ token.IsWideHalf source ∨
          ∃ origin, scope.Defaults origin ∧ origin.ComesOf token := by
  obtain ⟨same, _, _⟩ := Highlight.ends_of_parse parsed
  subst same
  have hereditary := hereditary_originates source document.fileId scope
  obtain ⟨_, holds⟩ := Document.carries_parse hereditary parsed
    fun tokens lexed read token member content _ =>
      ⟨token, .whole token.ticket, .inl (Lexer.reproduces_of_lex read token member content)⟩
  have foreign : ∀ token : Token, token.span.fileId ≠ document.fileId →
      token.isEndOfInput = false → Originates source document.fileId scope token :=
    fun _ apart _ own => by simp [Highlight.isOwn, apart] at own
  obtain ⟨branch, ended, rfl⟩ := carries_expand hereditary
    (Highlight.supplies_of_foreign hereditary foreign files) holds
    (yields_originates source document.fileId scope) arises.sound done
  have source : document.source = source := by
    obtain ⟨tokens, lexed, built, read, same⟩ := document_of_parse parsed
    rw [same]
    rfl
  refine ⟨source, rfl, ?_⟩
  intro token member unmarked written own
  have originates := ended.originates_result others document token member written
  obtain ⟨origin, comes, known⟩ := originates (by simp [Highlight.isOwn, unmarked, written, own])
  rcases known with reproduces | default
  · exact (comes.reproduces written reproduces).imp_right .inl
  · exact .inr (.inr ⟨origin, default, comes⟩)

/-- The scope that a text without inclusions leaves, if its expansion reads no more tokens than a
given number. -/
def preambleScope? (preamble : Text) (count : Nat) : Option Scope :=
  ((Document.parse preamble .standard .standard 0).toOption.bind fun document =>
    mainRun defaults document Scope.empty noTable count).map fun branch =>
      branch.shared.scope.popTo Scope.empty.depth

theorem ofSource_of_preambleScope? {preamble : Text} {count : Nat} {scope : Scope}
    (reached : preambleScope? preamble count = some scope) :
    Scope.ofSource noFiles preamble = .ok scope := by
  obtain ⟨branch, ran, rfl⟩ := Option.map_eq_some_iff.mp reached
  obtain ⟨document, parsed, ran⟩ := Option.bind_eq_some_iff.mp ran
  cases outcome : Document.parse preamble .standard .standard 0 with
  | error failure =>
    rw [outcome] at parsed
    cases parsed
  | ok other =>
    rw [outcome] at parsed
    cases parsed
    have done : (expand ⟨noFiles, {}, .standard⟩ document Scope.empty
        (.empty noFiles.currentDirectory)).outcome = _ := outcome_of_mainRun ran
    have left : (expand ⟨noFiles, {}, .standard⟩ document Scope.empty
        (.empty noFiles.currentDirectory)).scope = _ := scope_of_mainRun ran
    simp [Scope.ofSource, outcome, done, left, Except.mapError, bind, Except.bind, pure,
      Except.pure]

/-- A text that is expanded, behind a preamble and within a number of steps, to a document that
passes a test. -/
theorem exists_expansion_behind (preamble source : Text) (count : Nat) (test : Document → Bool)
    (checked : ((preambleScope? preamble count).bind fun scope =>
      (Document.parse source .standard .standard 0).toOption.bind fun document =>
        ((mainRun defaults document scope noTable count).map
          (·.result .standard document)).filter test).isSome = true) :
    ∃ scope document expanded reports, Scope.ofSource noFiles preamble = .ok scope ∧
      Document.parse source .standard .standard 0 = .ok document ∧
      (expand defaults document scope noTable).outcome = .ok (expanded, reports) ∧
        test expanded = true := by
  obtain ⟨expanded, found⟩ := Option.isSome_iff_exists.mp checked
  obtain ⟨scope, reached, ran⟩ := Option.bind_eq_some_iff.mp found
  obtain ⟨document, expanded, reports, expands⟩ := exists_expansion_in scope source count test
    (Option.isSome_iff_exists.mpr ⟨_, ran⟩)
  exact ⟨scope, document, expanded, reports, ofSource_of_preambleScope? reached, expands⟩

/-- A macro whose argument has a default. -/
def defaulting : Text := "\\newcommand\\a[1][x]\x7b#1\x7d"

theorem origin_of_own_defaulting :
    ∃ scope document expanded reports, Scope.ofSource noFiles defaulting = .ok scope ∧
      Document.parse "\\a$y$$z$" .standard .standard 0 = .ok document ∧ noTable.Arises ∧
      (expand defaults document scope noTable).outcome = .ok (expanded, reports) ∧
      ∀ token ∈ expanded.tokens, token.expanded = false → token.raw ≠ [] →
        token.span.fileId = 0 →
        token.Reproduces "\\a$y$$z$" ∨ token.IsWideHalf "\\a$y$$z$" ∨
          ∃ origin, scope.Defaults origin ∧ origin.ComesOf token := by
  obtain ⟨scope, document, expanded, reports, defined, parsed, done, _⟩ :=
    exists_expansion_behind defaulting "\\a$y$$z$" 20 (fun _ => true) (by decide +kernel)
  have arises : noTable.Arises := .empty ..
  exact ⟨scope, document, expanded, reports, defined, parsed, arises, done,
    (origin_of_own parsed noFiles {} .standard scope arises done).2.2⟩

/-- The default argument is written as it stands in the preamble: it is not marked, and its span
lies behind the end of the document. -/
theorem not_reproduces_defaulting :
    ∃ scope document expanded reports, Scope.ofSource noFiles defaulting = .ok scope ∧
      Document.parse "\\a" .standard .standard 0 = .ok document ∧
      (expand defaults document scope noTable).outcome = .ok (expanded, reports) ∧
      ∃ token ∈ expanded.tokens, token.expanded = false ∧ token.raw ≠ [] ∧
        token.span.fileId = 0 ∧ (Text.encode "\\a").length < token.span.start.offset ∧
        ¬ token.Reproduces "\\a" := by
  obtain ⟨scope, document, expanded, reports, defined, parsed, done, passes⟩ :=
    exists_expansion_behind defaulting "\\a" 20
      (fun expanded => expanded.tokens.any fun token =>
        Highlight.isOwn 0 token && decide (2 < token.span.start.offset) &&
          decide (¬ token.Reproduces "\\a"))
      (by decide +kernel)
  obtain ⟨token, member, stray⟩ := List.any_eq_true.mp passes
  simp only [Highlight.isOwn, Bool.and_eq_true, Bool.not_eq_true', decide_eq_true_eq] at stray
  obtain ⟨⟨⟨⟨unmarked, written⟩, own⟩, behind⟩, differs⟩ := stray
  exact ⟨scope, document, expanded, reports, defined, parsed, done, token, member, unmarked,
    written, own, behind, differs⟩

end Expansion

end TexSource
