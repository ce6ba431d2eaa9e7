import TexSource.Diagnostic.Frame
import TexSource.Proofs.Document.Reports
import TexSource.Proofs.Lines

/-!
# Frames of reports

The frame of a report shows the line on which its span starts, with carets under the span
(`Document.shows_frame`). The lines are found as those of a display: the frame is right as long as
no glyph up to the end of the line ends a line of a display only, such as a form feed. Behind such a
glyph it shows another part of the source (`Document.not_shows_frame_formFeed`).
-/

namespace TexSource

theorem Glyph.isLineBreak_of_isLineEnd {glyph : Glyph} (ends : glyph.isLineEnd = true) :
    glyph.isLineBreak = true := by
  simp only [isLineEnd, Bool.or_eq_true, decide_eq_true_eq] at ends
  rcases ends with rfl | rfl <;> rfl

namespace Text

/-- Up to the end of a line, no glyph ends a line of a display only. -/
def PlainUpTo (source : Text) (line : Nat) : Prop :=
  ∀ entry ∈ source.zipIdx, (source.placeAt entry.2).line ≤ line →
    entry.1.isLineBreak = true → entry.1.isLineEnd = true

instance (source : Text) (line : Nat) : Decidable (source.PlainUpTo line) :=
  inferInstanceAs (Decidable (∀ entry ∈ source.zipIdx, _))

variable {source rest : Text} {glyph : Glyph} {line : Nat} {test : Glyph → Bool}

/-- What lies behind a first glyph is plain as far as the whole is. -/
theorem PlainUpTo.tail (plain : PlainUpTo (glyph :: rest) line) :
    rest.PlainUpTo (if endsLineAt (glyph :: rest) 0 then line - 1 else line) := by
  intro entry member reached
  refine plain (entry.1, entry.2 + 1) ?_ ?_
  · rw [List.zipIdx_cons, List.zipIdx_succ]
    exact List.mem_cons_of_mem _ (List.mem_map_of_mem member)
  · have := line_placeAt_pos rest entry.2
    rw [line_placeAt_cons]
    cases ends : endsLineAt (glyph :: rest) 0 <;> simp [ends] at reached ⊢ <;> omega

theorem PlainUpTo.tail_of_inside (plain : PlainUpTo (glyph :: rest) line)
    (inside : glyph.isLineEnd = false) : rest.PlainUpTo line := by
  have behind := plain.tail
  rwa [endsLineAt_of_inside inside] at behind

/-- A first glyph is plain on the first line. -/
theorem PlainUpTo.head (plain : PlainUpTo (glyph :: rest) (line + 1)) :
    glyph.isLineBreak = true → glyph.isLineEnd = true :=
  plain (glyph, 0) (by simp) (Nat.le_add_left 1 line)

theorem dropWhileEnd_cons (fails : test glyph = false) (rest : Text) :
    dropWhileEnd test (glyph :: rest) = glyph :: dropWhileEnd test rest := by
  unfold dropWhileEnd
  rw [List.reverse_cons, List.dropWhile_append]
  split
  · rename_i none
    simp [List.isEmpty_iff.mp none, fails]
  · simp

theorem suffix_join_cons (separator first second : Text) (rest : List Text) :
    separator ++ join separator (second :: rest) <:+ join separator (first :: second :: rest) :=
  ⟨first, (List.append_assoc ..).symm⟩

theorem join_suffix_join_cons (separator first second : Text) (rest : List Text) :
    join separator (second :: rest) <:+ join separator (first :: second :: rest) :=
  (List.suffix_append ..).trans (suffix_join_cons ..)

/-- A line of a display without what ends it. -/
def withoutEnd (line : Text) : Text :=
  (line.dropWhileEnd (· = .char '\n')).dropWhileEnd (· = .char '\r')

/-- A line end by itself is dropped. -/
theorem withoutEnd_singleton (ends : glyph.isLineEnd = true) : withoutEnd [glyph] = [] := by
  simp only [Glyph.isLineEnd, Bool.or_eq_true, decide_eq_true_eq] at ends
  rcases ends with rfl | rfl <;> rfl

theorem withoutEnd_cons (plain : glyph.isLineEnd = false) (line : Text) :
    withoutEnd (glyph :: line) = glyph :: withoutEnd line := by
  simp only [Glyph.isLineEnd, Bool.or_eq_false_iff] at plain
  rw [withoutEnd, dropWhileEnd_cons plain.1, dropWhileEnd_cons plain.2]
  rfl

end Text

namespace Diagnostic

variable {source : Text}

theorem excerpt_succ (source : Text) (index : Nat) :
    excerpt source (index + 1) = (source.lines[index]?.getD []).withoutEnd :=
  rfl

/-- **The line of a frame.** If the source is plain up to a line, this is the line that is shown. -/
theorem excerpt_eq_row {line : Nat} (plain : source.PlainUpTo line) :
    excerpt source line = source.row line := by
  cases line with
  | zero => simp [excerpt]
  | succ line =>
    rw [excerpt_succ]
    fun_induction Text.lines source generalizing line with
    | case1 => rfl
    | case2 rest ih =>
      have returns : Text.endsLineAt (.char '\r' :: .char '\n' :: rest) 0 = false := rfl
      have feeds : Text.endsLineAt (.char '\n' :: rest) 0 = true := rfl
      have behind := plain.tail
      rw [returns] at behind
      have behind := behind.tail
      rw [feeds] at behind
      simp only [Text.row_cons, returns, feeds]
      cases line with
      | zero => simp; rfl
      | succ line => simpa using ih line behind
    | case3 glyph rest single breaks ih =>
      have last := plain.head breaks
      have ends := Text.endsLineAt_of_single last single
      have behind := plain.tail
      rw [ends] at behind
      simp only [Text.row_cons, ends, last]
      cases line with
      | zero => simp [Text.withoutEnd_singleton last]
      | succ line => simpa using ih line behind
    | case4 glyph rest single within none ih =>
      have inside := Bool.eq_false_iff.mpr (mt Glyph.isLineBreak_of_isLineEnd within)
      have later := ih line (plain.tail_of_inside inside)
      rw [none] at later
      rw [Text.row_cons_of_inside inside, ← later]
      cases line <;> simp [Text.withoutEnd_cons inside]
    | case5 glyph rest single within shown others split ih =>
      have inside := Bool.eq_false_iff.mpr (mt Glyph.isLineBreak_of_isLineEnd within)
      have later := ih line (plain.tail_of_inside inside)
      rw [split] at later
      rw [Text.row_cons_of_inside inside, ← later]
      cases line <;> simp [Text.withoutEnd_cons inside]

/-- Carets under the columns of a span, at least one of them, behind blanks. A span that goes on
behind the text above has carets to the end of it. -/
def Underlines (span : Span) (shown carets : Text) : Prop :=
  ∀ index, carets[index]? =
    if index + 1 < span.start.column then some (.char ' ')
    else if index + 1 < max (span.start.column + 1)
        (if span.stop.line = span.start.line then span.stop.column else shown.length + 1) then
      some (.char '^')
    else none

/-- The number of a line in the margin. -/
def lineNumber (line : Nat) : Text :=
  Text.ofNat line ++ " | "

/-- A frame ends with a text behind the number of a line, and with carets as far from the margin. -/
def Shows (frame : Text) (span : Span) (shown : Text) : Prop :=
  ∃ margin carets : Text,
    .char '\n' :: lineNumber span.start.line ++ shown ++ .char '\n' :: margin ++ carets <:+ frame ∧
      margin.length = (lineNumber span.start.line).length ∧ Underlines span shown carets

theorem underlines_run (span : Span) (shown : Text) (placed : 0 < span.start.column) :
    Underlines span shown
      (run (span.start.column - 1) ' ' ++ run (caretCount span shown) '^') := by
  intro index
  simp only [run, List.getElem?_append, List.length_replicate, List.getElem?_replicate, caretCount]
  by_cases blank : index + 1 < span.start.column
  · have inside : index < span.start.column - 1 := by omega
    simp only [inside, blank, if_true]
  · have behind : ¬ index < span.start.column - 1 := by omega
    simp only [behind, blank, if_false]
    congr 1
    split <;> simp only [eq_iff_iff] <;> omega

/-- A frame shows the excerpt of its source. -/
theorem shows_excerpt (diagnostic : Diagnostic) (source fileName : Text)
    (placed : 0 < diagnostic.span.start.column) :
    Shows (diagnostic.frame source fileName) diagnostic.span
      (excerpt source diagnostic.span.start.line) := by
  refine ⟨run ((Text.ofNat diagnostic.span.start.line).length + 1) ' ' ++ "| ", _, ?_, ?_,
    underlines_run diagnostic.span _ placed⟩
  · change _ <:+ Text.join "\n" [_, _, _, _, _]
    refine .trans ?_ ((Text.suffix_join_cons ..).trans
      ((Text.join_suffix_join_cons ..).trans (Text.join_suffix_join_cons ..)))
    simp [Text.join, lineNumber, Text.ofString]
  · simp [run, Text.ofString, lineNumber]

theorem Shows.infix {frame shown : Text} {span : Span} (shows : Shows frame span shown) :
    lineNumber span.start.line ++ shown <:+: frame := by
  obtain ⟨margin, carets, ⟨above, rfl⟩, -⟩ := shows
  exact ⟨above ++ [.char '\n'], .char '\n' :: margin ++ carets, by simp⟩

end Diagnostic

theorem Text.HasPlace.column_pos {source : Text} {position : Position}
    (placed : source.HasPlace position) : 0 < position.column := by
  rcases placed with ⟨index, -, -, column⟩ | ⟨index, -, -, -, column⟩
  · exact column ▸ source.column_placeAt_pos index
  · omega

namespace Document

variable {source : Text} {table : Catcode.Table} {commands : CommandTable} {fileId : FileId}
  {document : Document}

/-- **Frames.** The frame of a report on a parsed source shows the line on which its span starts,
with carets under the span, if no glyph up to the end of this line ends a line of a display only. In
the text shown, the glyphs of the line stand in their columns. -/
theorem shows_frame (parsed : parse source table commands fileId = .ok document) :
    ∀ diagnostic ∈ document.diagnostics, source.PlainUpTo diagnostic.span.start.line →
      (∀ fileName, Diagnostic.Shows (diagnostic.frame source fileName) diagnostic.span
        (source.row diagnostic.span.start.line)) ∧
      ∀ index glyph, source[index]? = some glyph → glyph.isLineEnd = false →
        (source.placeAt index).line = diagnostic.span.start.line →
        (source.row diagnostic.span.start.line)[(source.placeAt index).column - 1]? =
          some glyph := by
  intro diagnostic reported plain
  have placed := ((sited_of_parse parsed).2 diagnostic reported).start.column_pos
  constructor
  · intro fileName
    rw [← Diagnostic.excerpt_eq_row plain]
    exact diagnostic.shows_excerpt source fileName placed
  · intro index glyph found inside line
    exact line ▸ Text.row_placeAt found inside

/-- Two reports, on lines that end in different ways. -/
def unevenLines : Text := "a\r\n\x7db\r\\begin\x7be\x7d\n"

theorem shows_frame_unevenLines :
    ∃ document, parse unevenLines .standard .standard 0 = .ok document ∧
      document.diagnostics.length = 2 ∧ ∀ diagnostic ∈ document.diagnostics,
        unevenLines.PlainUpTo diagnostic.span.start.line ∧
        (∀ fileName, Diagnostic.Shows (diagnostic.frame unevenLines fileName) diagnostic.span
          (unevenLines.row diagnostic.span.start.line)) ∧
        ∀ index glyph, unevenLines[index]? = some glyph → glyph.isLineEnd = false →
          (unevenLines.placeAt index).line = diagnostic.span.start.line →
          (unevenLines.row diagnostic.span.start.line)[(unevenLines.placeAt index).column - 1]? =
            some glyph := by
  have checked : (parse unevenLines .standard .standard 0).toOption.any (fun document =>
      decide (document.diagnostics.length = 2 ∧ ∀ diagnostic ∈ document.diagnostics,
        unevenLines.PlainUpTo diagnostic.span.start.line)) = true := by decide +kernel
  obtain ⟨document, parsed, checked⟩ := exists_parse_of_any checked
  obtain ⟨both, plain⟩ := of_decide_eq_true checked
  exact ⟨document, parsed, both, fun diagnostic reported =>
    ⟨plain diagnostic reported, shows_frame parsed diagnostic reported (plain _ reported)⟩⟩

/-- A brace too many behind a form feed, which ends no line. -/
def formFeed : Text := "a\x0c\x7d"

/-- The frame shows the line only up to the form feed. -/
theorem not_shows_frame_formFeed :
    ∃ document, parse formFeed .standard .standard 0 = .ok document ∧
      ∃ diagnostic ∈ document.diagnostics,
        ¬ Diagnostic.Shows (diagnostic.frame formFeed "main.tex") diagnostic.span
          (formFeed.row diagnostic.span.start.line) := by
  have checked : (parse formFeed .standard .standard 0).toOption.any (fun document =>
      decide (∃ diagnostic ∈ document.diagnostics,
        ¬ Diagnostic.lineNumber diagnostic.span.start.line ++
          formFeed.row diagnostic.span.start.line <:+: diagnostic.frame formFeed "main.tex")) =
      true := by decide +kernel
  obtain ⟨document, parsed, checked⟩ := exists_parse_of_any checked
  obtain ⟨diagnostic, reported, absent⟩ := of_decide_eq_true checked
  exact ⟨document, parsed, diagnostic, reported, mt Diagnostic.Shows.infix absent⟩

end Document

end TexSource
