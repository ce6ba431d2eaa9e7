import TexSource.Proofs.Lexer.Trimming

/-!
# Runs of white space

A text is squeezed by writing its runs of white space as single spaces, and without the last one
(`Text.squeeze`). Texts that are squeezed alike are the same name, once white space is removed from
their ends, unless there is some within them (`Text.sameName_of_squeeze`).
-/

namespace TexSource

namespace Text

/-- A glyph in front of a text with single spaces. White space is written as a space, unless it
stands before white space or at the end. -/
def squeezeOnto (glyph : Glyph) (text : Text) : Text :=
  if glyph.isBlank then
    match text with
    | [] => []
    | next :: _ => if next.isBlank then text else .char ' ' :: text
  else glyph :: text

/-- A text with single spaces for its runs of white space, and without the one at its end. -/
def squeeze (text : Text) : Text :=
  text.foldr squeezeOnto []

theorem squeeze_append (text others : Text) :
    squeeze (text ++ others) = text.foldr squeezeOnto (squeeze others) :=
  List.foldr_append

theorem squeeze_cons (glyph : Glyph) (rest : Text) :
    squeeze (glyph :: rest) = squeezeOnto glyph (squeeze rest) :=
  List.foldr_cons ..

theorem squeezeOnto_solid {glyph : Glyph} (solid : glyph.isBlank = false) (text : Text) :
    squeezeOnto glyph text = glyph :: text := by
  simp [squeezeOnto, solid]

theorem isBlank_space : (Glyph.char ' ').isBlank = true := by
  decide

/-- One glyph of white space counts as much as another one. -/
theorem squeezeOnto_blank {glyph : Glyph} (blank : glyph.isBlank = true) (text : Text) :
    squeezeOnto glyph text = squeezeOnto (.char ' ') text := by
  simp [squeezeOnto, blank, isBlank_space]

/-- White space counts once. -/
theorem squeezeOnto_twice (text : Text) :
    squeezeOnto (.char ' ') (squeezeOnto (.char ' ') text) = squeezeOnto (.char ' ') text := by
  cases text with
  | nil => rfl
  | cons next rest => cases blank : next.isBlank <;> simp [squeezeOnto, isBlank_space, blank]

theorem foldr_squeezeOnto_blanks {blanks : Text} (present : blanks ≠ [])
    (blank : ∀ glyph ∈ blanks, glyph.isBlank = true) (text : Text) :
    blanks.foldr squeezeOnto text = squeezeOnto (.char ' ') text := by
  induction blanks with
  | nil => contradiction
  | cons glyph rest ih =>
    rw [List.forall_mem_cons] at blank
    rw [List.foldr_cons, squeezeOnto_blank blank.1]
    by_cases last : rest = []
    · rw [last, List.foldr_nil]
    · rw [ih last blank.2, squeezeOnto_twice]

/-- What stands in front of a glyph that is no white space does not depend on what is behind it,
and is squeezed as it is by itself but for white space at the end. -/
theorem exists_squeezed_front {glyph : Glyph} (solid : glyph.isBlank = false) (text : Text) :
    ∃ front : Text, (∀ rest, text.foldr squeezeOnto (glyph :: rest) = front ++ glyph :: rest) ∧
      squeeze text = front.stripEnd := by
  induction text with
  | nil => exact ⟨[], fun _ => rfl, rfl⟩
  | cons first text ih =>
    obtain ⟨front, same, alone⟩ := ih
    cases blank : first.isBlank with
    | false =>
      refine ⟨first :: front, fun rest => ?_, ?_⟩
      · rw [List.foldr_cons, same, squeezeOnto_solid blank, List.cons_append]
      · rw [squeeze_cons, alone, squeezeOnto_solid blank]
        exact (stripEnd_append_cons [] blank front).symm
    | true =>
      have squeezed : ∀ rest, (first :: text).foldr squeezeOnto (glyph :: rest) =
          squeezeOnto (.char ' ') (front ++ glyph :: rest) := fun rest => by
        rw [List.foldr_cons, same, squeezeOnto_blank blank]
      rw [squeeze_cons, alone, squeezeOnto_blank blank]
      cases front with
      | nil =>
        refine ⟨[.char ' '], fun rest => ?_, rfl⟩
        rw [squeezed]
        simp [squeezeOnto, isBlank_space, solid]
      | cons next front =>
        cases also : next.isBlank with
        | true =>
          refine ⟨next :: front, fun rest => ?_, ?_⟩
          · rw [squeezed]
            simp [squeezeOnto, isBlank_space, also]
          · rcases List.prefix_cons_iff.mp (List.rdropWhile_prefix Glyph.isBlank (next :: front))
              with nothing | ⟨kept, split, -⟩
            · change squeezeOnto _ (List.rdropWhile _ _) = List.rdropWhile _ _
              rw [nothing]
              rfl
            · change squeezeOnto _ (List.rdropWhile _ _) = List.rdropWhile _ _
              rw [split]
              simp [squeezeOnto, isBlank_space, also]
        | false =>
          refine ⟨.char ' ' :: next :: front, fun rest => ?_, ?_⟩
          · rw [squeezed]
            simp [squeezeOnto, isBlank_space, also]
          · have strip := stripEnd_append_cons [] also front
            rw [List.nil_append, List.nil_append] at strip
            rw [strip]
            have whole := stripEnd_append_cons [.char ' '] also front
            rw [List.singleton_append, List.singleton_append] at whole
            rw [whole]
            simp [squeezeOnto, isBlank_space, also]

/-- **Cancelling.** Texts that are squeezed alike together with what is behind them are squeezed
alike, if so is what is behind them, and no white space stands there. -/
theorem squeeze_eq_of_append {text other behind later : Text}
    (whole : squeeze (text ++ behind) = squeeze (other ++ later))
    (same : squeeze behind = squeeze later)
    (solid : ∀ glyph ∈ behind.head?, glyph.isBlank = false)
    (also : ∀ glyph ∈ later.head?, glyph.isBlank = false) : squeeze text = squeeze other := by
  rw [squeeze_append, squeeze_append] at whole
  cases behind with
  | nil =>
    cases later with
    | nil => exact whole
    | cons glyph later =>
      rw [squeeze_cons, squeezeOnto_solid (also glyph rfl)] at same
      cases same
  | cons glyph behind =>
    rw [squeeze_cons, squeezeOnto_solid (solid glyph rfl)] at same whole
    cases later with
    | nil => cases same
    | cons next later =>
      rw [squeeze_cons, squeezeOnto_solid (also next rfl)] at same whole
      obtain ⟨rfl, rest⟩ := List.cons.inj same
      obtain ⟨front, split, alone⟩ := exists_squeezed_front (solid glyph rfl) text
      obtain ⟨others, splitOther, aloneOther⟩ := exists_squeezed_front (solid glyph rfl) other
      rw [split, splitOther, rest, List.append_left_inj] at whole
      rw [alone, aloneOther, whole]

/-- A text without white space. -/
def IsWhole (text : Text) : Prop :=
  ∀ glyph ∈ text, glyph.isBlank = false

instance (text : Text) : Decidable text.IsWhole :=
  inferInstanceAs (Decidable (∀ glyph ∈ text, glyph.isBlank = false))

/-- Texts that are the same name, or contain white space. -/
def SameName (text other : Text) : Prop :=
  ∀ name : Text, name.IsWhole → (text = name ↔ other = name)

/-- White space in front is squeezed as what it is in front of. -/
theorem stripStart_squeeze (text : Text) : (squeeze text).stripStart = squeeze text.stripStart := by
  induction text with
  | nil => rfl
  | cons glyph rest ih =>
    cases blank : glyph.isBlank with
    | false =>
      rw [squeeze_cons, squeezeOnto_solid blank, stripStart, stripStart,
        List.dropWhile_cons_of_neg (by simp [blank]), List.dropWhile_cons_of_neg (by simp [blank]),
        squeeze_cons, squeezeOnto_solid blank]
    | true =>
      have dropped : stripStart (glyph :: rest) = stripStart rest :=
        List.dropWhile_cons_of_pos blank
      rw [dropped, ← ih, squeeze_cons, squeezeOnto_blank blank]
      cases squeeze rest with
      | nil => rfl
      | cons next later =>
        cases also : next.isBlank <;> simp [squeezeOnto, stripStart, isBlank_space, also]

theorem stripEnd_cons_solid {glyph : Glyph} (solid : glyph.isBlank = false) (rest : Text) :
    stripEnd (glyph :: rest) = glyph :: stripEnd rest :=
  stripEnd_append_cons [] solid rest

/-- A text without white space is squeezed to itself. -/
theorem IsWhole.foldr_squeezeOnto {name : Text} (whole : name.IsWhole) (text : Text) :
    name.foldr squeezeOnto text = name ++ text := by
  induction name with
  | nil => rfl
  | cons glyph rest ih =>
    rw [IsWhole, List.forall_mem_cons] at whole
    rw [List.foldr_cons, ih whole.2, squeezeOnto_solid whole.1, List.cons_append]

theorem squeeze_eq_nil {blanks : Text} (blank : ∀ glyph ∈ blanks, glyph.isBlank = true) :
    squeeze blanks = [] := by
  by_cases present : blanks = []
  · rw [present]
    rfl
  · exact foldr_squeezeOnto_blanks present blank []

/-- White space at the end does not matter. -/
theorem exists_stripEnd (text : Text) :
    ∃ blanks, text = text.stripEnd ++ blanks ∧ ∀ glyph ∈ blanks, glyph.isBlank = true := by
  refine ⟨text.rtakeWhile Glyph.isBlank, (List.rdropWhile_append_rtakeWhile ..).symm, ?_⟩
  intro glyph member
  exact List.mem_rtakeWhile_imp member

/-- A text is a name but for white space at its end if it is squeezed to the name. -/
theorem stripEnd_eq_iff {name : Text} (whole : name.IsWhole) (text : Text) :
    text.stripEnd = name ↔ squeeze text = name := by
  constructor
  · rintro rfl
    obtain ⟨blanks, split, blank⟩ := exists_stripEnd text
    calc squeeze text
        _ = squeeze (text.stripEnd ++ blanks) := congrArg squeeze split
        _ = text.stripEnd := by
          rw [squeeze_append, squeeze_eq_nil blank, whole.foldr_squeezeOnto, List.append_nil]
  · intro same
    induction text generalizing name with
    | nil => exact same
    | cons glyph rest ih =>
      subst same
      rw [squeeze_cons] at whole ⊢
      cases blank : glyph.isBlank with
      | false =>
        rw [squeezeOnto_solid blank] at whole ⊢
        rw [stripEnd_cons_solid blank,
          ih (fun glyph member => whole glyph (List.mem_cons_of_mem _ member)) rfl]
      | true =>
        have nothing : squeeze rest = [] := by
          rw [squeezeOnto_blank blank] at whole
          cases squeezed : squeeze rest with
          | nil => rfl
          | cons next later =>
            rw [squeezed] at whole
            cases also : next.isBlank with
            | true =>
              simp only [squeezeOnto, isBlank_space, also, ↓reduceIte] at whole
              exact absurd (whole next List.mem_cons_self) (by simp [also])
            | false =>
              simp only [squeezeOnto, isBlank_space, also, ↓reduceIte] at whole
              exact absurd (whole _ List.mem_cons_self) (by simp [isBlank_space])
        have spaces : stripEnd rest = [] := ih (List.forall_mem_nil _) nothing
        have all : ∀ glyph ∈ rest, glyph.isBlank = true := List.rdropWhile_eq_nil_iff.mp spaces
        rw [nothing, squeezeOnto_blank blank]
        exact List.rdropWhile_eq_nil_iff.mpr (List.forall_mem_cons.mpr ⟨blank, all⟩)

/-- Texts that are squeezed alike are the same name. -/
theorem sameName_of_squeeze {text other : Text} (same : squeeze text = squeeze other) :
    SameName text.strip other.strip := by
  intro name whole
  rw [strip, strip, stripEnd_eq_iff whole, stripEnd_eq_iff whole, ← stripStart_squeeze,
    ← stripStart_squeeze, same]

end Text

end TexSource
