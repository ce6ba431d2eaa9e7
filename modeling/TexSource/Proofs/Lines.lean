import Mathlib.Data.List.TakeWhile
import TexSource.Proofs.Places

/-!
# The lines of a text

A line of a text, as positions count lines, has the glyphs whose places lie on it, without the
glyphs that end it (`Text.row`). The column of a place tells where its glyph stands in the line
(`Text.row_placeAt`).
-/

namespace TexSource

/-- The glyphs that end a line, by themselves or as a pair. -/
def Glyph.isLineEnd (glyph : Glyph) : Bool :=
  glyph = .char '\n' || glyph = .char '\r'

namespace Text

/-- The glyphs of a line, without its end. Lines are counted from one. -/
def row (source : Text) (line : Nat) : Text :=
  (source.zipIdx.filter fun entry =>
    !entry.1.isLineEnd && (source.placeAt entry.2).line = line).map Prod.fst

variable {glyph : Glyph} {rest source : Text} {index line : Nat}

theorem line_placeAt_pos (source : Text) (index : Nat) : 0 < (source.placeAt index).line :=
  Nat.lt_of_lt_of_le Nat.one_pos (Nat.le_add_right 1 _)

@[simp] theorem endsLineAt_cons_succ (glyph : Glyph) (rest : Text) (index : Nat) :
    endsLineAt (glyph :: rest) (index + 1) = endsLineAt rest index :=
  rfl

/-- A first glyph that ends a line puts what follows one line down. -/
theorem line_placeAt_cons (glyph : Glyph) (rest : Text) (index : Nat) :
    (placeAt (glyph :: rest) (index + 1)).line =
      (rest.placeAt index).line + if endsLineAt (glyph :: rest) 0 then 1 else 0 := by
  simp only [placeAt, List.range_succ_eq_map, List.countP_cons, List.countP_map, Nat.add_assoc]
  rfl

/-- On the first line, and only there, no line ends before a place. -/
theorem line_placeAt_eq_one : (source.placeAt index).line = 1 ↔
    ((List.range index).reverse.takeWhile fun earlier => !source.endsLineAt earlier).length =
      (List.range index).reverse.length := by
  have none : (source.placeAt index).line = 1 ↔
      ∀ earlier ∈ (List.range index).reverse, (!source.endsLineAt earlier) = true := by
    simp [placeAt]
  rw [none, ← List.takeWhile_eq_self_iff]
  exact ⟨congrArg List.length, (List.takeWhile_prefix _).eq_of_length⟩

/-- A first glyph that does not end a line puts the rest of its line one column on. -/
theorem column_placeAt_cons (glyph : Glyph) (rest : Text) (index : Nat) :
    (placeAt (glyph :: rest) (index + 1)).column = (rest.placeAt index).column +
      if (rest.placeAt index).line = 1 ∧ endsLineAt (glyph :: rest) 0 = false then 1 else 0 := by
  simp only [line_placeAt_eq_one]
  simp only [placeAt, List.range_succ_eq_map, List.reverse_cons, List.takeWhile_append,
    ← List.map_reverse, List.takeWhile_map, List.length_map, Function.comp_def,
    Nat.succ_eq_add_one, endsLineAt_cons_succ]
  cases ends : endsLineAt (glyph :: rest) 0 <;> split <;> (simp_all; try omega)

theorem column_placeAt_pos (source : Text) (index : Nat) : 0 < (source.placeAt index).column :=
  Nat.lt_of_lt_of_le Nat.one_pos (Nat.le_add_right 1 _)

/-- Behind a pair of line ends nothing is left of the line. -/
theorem index_eq_zero_of_line {later : Text}
    (first : (placeAt (.char '\n' :: later) index).line = 1) : index = 0 := by
  cases index with
  | zero => rfl
  | succ index =>
    have line := line_placeAt_pos later index
    have ends : endsLineAt (.char '\n' :: later) 0 = true := rfl
    rw [line_placeAt_cons, if_pos ends] at first
    omega

/-- A glyph that ends no line is no line end, or the first one of a pair. -/
theorem isLineEnd_or_pair (within : endsLineAt (glyph :: rest) 0 = false) :
    glyph.isLineEnd = false ∨ glyph = .char '\r' ∧ ∃ later, rest = .char '\n' :: later := by
  cases rest with
  | nil => simp_all [endsLineAt, Glyph.isLineEnd]
  | cons next later =>
    simp only [endsLineAt, List.getElem?_cons_zero, Option.some.injEq, List.getElem?_cons_succ,
      Bool.or_eq_false_iff, decide_eq_false_iff_not, Bool.and_eq_false_iff] at within
    obtain ⟨notFeed, notReturn | pair⟩ := within
    · exact .inl (by simp [Glyph.isLineEnd, notFeed, notReturn])
    · by_cases returns : glyph = .char '\r'
      · exact .inr ⟨returns, later, by simpa using pair⟩
      · exact .inl (by simp [Glyph.isLineEnd, notFeed, returns])

theorem endsLineAt_of_inside (inside : glyph.isLineEnd = false) :
    endsLineAt (glyph :: rest) 0 = false := by
  simp only [Glyph.isLineEnd, Bool.or_eq_false_iff, decide_eq_false_iff_not] at inside
  simp [endsLineAt, inside]

/-- A line end that is not the first of a pair ends a line. -/
theorem endsLineAt_of_single (ends : glyph.isLineEnd = true)
    (single : ∀ later, glyph = .char '\r' → rest = .char '\n' :: later → False) :
    endsLineAt (glyph :: rest) 0 = true := by
  cases within : endsLineAt (glyph :: rest) 0 with
  | true => rfl
  | false =>
    rcases isLineEnd_or_pair within with inside | ⟨returns, later, pair⟩
    · exact inside.symm.trans ends
    · exact (single later returns pair).elim

@[simp] theorem row_nil (line : Nat) : row [] line = [] :=
  rfl

/-- No glyph stands before the first line. -/
@[simp] theorem row_zero (source : Text) : source.row 0 = [] := by
  have none (entry : Glyph × Nat) : (source.placeAt entry.2).line ≠ 0 :=
    Nat.ne_of_gt (line_placeAt_pos source entry.2)
  simp [row, none]

/-- A first glyph stands on the first line, and what follows it on the same line or, if it ends the
line, one line down. -/
theorem row_cons (glyph : Glyph) (rest : Text) (line : Nat) :
    row (glyph :: rest) line = (if !glyph.isLineEnd && line = 1 then [glyph] else []) ++
      rest.row (if endsLineAt (glyph :: rest) 0 then line - 1 else line) := by
  have below (index : Nat) : (placeAt (glyph :: rest) (index + 1)).line = line ↔
      (rest.placeAt index).line = if endsLineAt (glyph :: rest) 0 then line - 1 else line := by
    have := line_placeAt_pos rest index
    rw [line_placeAt_cons]
    split <;> omega
  have first : (placeAt (glyph :: rest) 0).line = line ↔ line = 1 := eq_comm
  simp only [row, List.zipIdx_cons, List.zipIdx_succ, List.filter_cons, List.filter_map,
    Function.comp_def, Nat.zero_add, first, below]
  split <;> simp

/-- A glyph that ends no line stands before the rest of its line. -/
theorem row_cons_of_inside (inside : glyph.isLineEnd = false) (rest : Text) (line : Nat) :
    row (glyph :: rest) line = (if line = 1 then [glyph] else []) ++ rest.row line := by
  rw [row_cons, endsLineAt_of_inside inside]
  simp [inside]

/-- A glyph that ends no line is in the row of its line, in its column. -/
theorem row_placeAt (found : source[index]? = some glyph) (inside : glyph.isLineEnd = false) :
    (source.row (source.placeAt index).line)[(source.placeAt index).column - 1]? = some glyph := by
  induction source generalizing index with
  | nil => cases found
  | cons head rest ih =>
    cases index with
    | zero =>
      obtain rfl : head = glyph := by simpa using found
      simp [row_cons, inside, Position.start]
    | succ index =>
      have deeper := ih (by simpa using found)
      have line := line_placeAt_pos rest index
      have column := column_placeAt_pos rest index
      rw [row_cons, line_placeAt_cons, column_placeAt_cons]
      cases ends : endsLineAt (head :: rest) 0 with
      | true =>
        have later : (placeAt rest index).line ≠ 0 := by omega
        simpa [later] using deeper
      | false =>
        by_cases first : (placeAt rest index).line = 1
        · rcases isLineEnd_or_pair ends with plain | ⟨-, later, rfl⟩
          · have shifted : (placeAt rest index).column + 1 - 1 =
              (placeAt rest index).column - 1 + 1 := by omega
            simpa [first, plain, shifted] using deeper
          · rw [index_eq_zero_of_line first] at found
            cases found
            cases inside
        · simpa [first] using deeper

end Text

end TexSource
