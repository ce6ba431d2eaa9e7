import TexSource.Proofs.Document.Roles

/-!
# Matching braces on a stack

Whatever else is open, an opening brace waits for the next closing brace that no brace behind it
takes. `Braces` matches the braces of a list of tokens on a stack. What is read in front does not
matter for what is read behind it when nothing waits there (`Braces.of_append`).
-/

namespace TexSource

/-- Braces that have been read: the pairs, the opening braces that wait, the last one first, and
the closing braces that found none waiting. -/
structure Braces where
  pairs : List (Placed × Placed)
  waiting : List Placed
  stray : List Placed

namespace Braces

def read (braces : Braces) (placed : Placed) : Braces :=
  if placed.token.isBeginGroup then { braces with waiting := placed :: braces.waiting }
  else if placed.token.isEndGroup then
    match braces.waiting with
    | [] => { braces with stray := braces.stray ++ [placed] }
    | opener :: waiting =>
      { braces with pairs := braces.pairs ++ [(opener, placed)], waiting := waiting }
  else braces

def readAll (braces : Braces) (code : List Placed) : Braces :=
  code.foldl read braces

/-- The braces among tokens. -/
def of (code : List Placed) : Braces :=
  readAll ⟨[], [], []⟩ code

variable {braces : Braces} {code others : List Placed} {placed opener closer : Placed}

theorem read_opener (opens : placed.token.isBeginGroup = true) :
    braces.read placed = { braces with waiting := placed :: braces.waiting } := by
  rw [read, if_pos opens]

theorem isBeginGroup_of_isEndGroup {token : Token} (closes : token.isEndGroup = true) :
    token.isBeginGroup = false := by
  unfold Token.isEndGroup at closes
  unfold Token.isBeginGroup
  split at closes
  · simp [*]
  · cases closes

theorem read_stray (closes : placed.token.isEndGroup = true) (none : braces.waiting = []) :
    braces.read placed = { braces with stray := braces.stray ++ [placed] } := by
  rw [read, if_neg (by simp [isBeginGroup_of_isEndGroup closes]), if_pos closes, none]

theorem read_closer (closes : placed.token.isEndGroup = true) {waiting : List Placed}
    (some : braces.waiting = opener :: waiting) :
    braces.read placed =
      { braces with pairs := braces.pairs ++ [(opener, placed)], waiting := waiting } := by
  rw [read, if_neg (by simp [isBeginGroup_of_isEndGroup closes]), if_pos closes, some]

theorem read_other (other : placed.token.isBrace = false) : braces.read placed = braces := by
  rw [Token.isBrace, Bool.or_eq_false_iff] at other
  rw [read, if_neg (by simp [other.1]), if_neg (by simp [other.2])]

@[simp] theorem readAll_nil : braces.readAll [] = braces := rfl

@[simp] theorem readAll_cons :
    braces.readAll (placed :: code) = (braces.read placed).readAll code := rfl

@[simp] theorem readAll_append :
    braces.readAll (code ++ others) = (braces.readAll code).readAll others :=
  List.foldl_append

theorem readAll_quiet (quiet : ∀ placed ∈ code, placed.token.isBrace = false) :
    braces.readAll code = braces := by
  induction code with
  | nil => rfl
  | cons placed rest ih =>
    rw [List.forall_mem_cons] at quiet
    rw [readAll_cons, read_other quiet.1, ih quiet.2]

/-- What has been read before, with opening braces below those that wait. -/
def above (braces front : Braces) : Braces :=
  ⟨front.pairs ++ braces.pairs, braces.waiting ++ front.waiting, front.stray ++ braces.stray⟩

/-- The stray braces stay stray. -/
theorem stray_prefix_read : braces.stray <+: (braces.read placed).stray := by
  unfold read
  split
  · exact List.prefix_rfl
  · split
    · split
      · exact List.prefix_append _ _
      · exact List.prefix_rfl
    · exact List.prefix_rfl

theorem stray_prefix : braces.stray <+: (braces.readAll code).stray := by
  induction code generalizing braces with
  | nil => exact List.prefix_rfl
  | cons placed rest ih => exact stray_prefix_read.trans ih

theorem read_above {front : Braces}
    (safe : front.waiting = [] ∨ (braces.read placed).stray = braces.stray) :
    (braces.above front).read placed = (braces.read placed).above front := by
  by_cases opens : placed.token.isBeginGroup = true
  · rw [read_opener opens, read_opener opens]
    rfl
  by_cases closes : placed.token.isEndGroup = true
  · cases waiting : braces.waiting with
    | cons opener rest =>
      have above : (braces.above front).waiting = opener :: (rest ++ front.waiting) := by
        rw [Braces.above, waiting, List.cons_append]
      rw [read_closer closes waiting, read_closer closes above]
      simp [Braces.above]
    | nil =>
      rw [read_stray closes waiting] at safe ⊢
      have empty : front.waiting = [] := safe.resolve_right (by simp)
      have above : (braces.above front).waiting = [] := by
        rw [Braces.above, waiting, empty, List.append_nil]
      rw [read_stray closes above]
      simp [Braces.above]
  · have other : placed.token.isBrace = false := by simp [Token.isBrace, opens, closes]
    rw [read_other other, read_other other]

/-- What stands in front does not matter when nothing waits there, or when no brace is stray. -/
theorem readAll_above {front : Braces}
    (safe : front.waiting = [] ∨ (braces.readAll code).stray = braces.stray) :
    (braces.above front).readAll code = (braces.readAll code).above front := by
  induction code generalizing braces with
  | nil => rfl
  | cons placed rest ih =>
    rw [readAll_cons] at safe
    have first : front.waiting = [] ∨ (braces.read placed).stray = braces.stray := by
      refine safe.imp_right fun same => ?_
      have back : (braces.read placed).stray <+: braces.stray := same ▸ stray_prefix
      exact back.eq_of_length_le stray_prefix_read.length_le
    have later : front.waiting = [] ∨
        ((braces.read placed).readAll rest).stray = (braces.read placed).stray := by
      rcases first with empty | same
      · exact .inl empty
      · exact safe.imp_right (·.trans same.symm)
    rw [readAll_cons, readAll_cons, read_above first, ih later]

/-- The braces of tokens behind others. -/
theorem of_append (safe : (of code).waiting = [] ∨ (of others).stray = []) :
    of (code ++ others) =
      ⟨(of code).pairs ++ (of others).pairs, (of others).waiting ++ (of code).waiting,
        (of code).stray ++ (of others).stray⟩ := by
  have front : of code = Braces.above ⟨[], [], []⟩ (of code) := by simp [Braces.above]
  rw [of, readAll_append, ← of, front, readAll_above safe, ← of]
  simp [Braces.above]

/-- The opening braces that have been read. -/
def openers (braces : Braces) : List Placed :=
  braces.pairs.map Prod.fst ++ braces.waiting

theorem openers_read (braces : Braces) (placed : Placed) : (braces.read placed).openers.Perm
    (braces.openers ++ [placed].filter fun placed => placed.token.isBeginGroup) := by
  unfold openers
  by_cases opens : placed.token.isBeginGroup = true
  · rw [read_opener opens, List.filter_cons_of_pos (by exact opens), List.append_assoc]
    exact .append_left _ (List.perm_append_singleton ..).symm
  rw [List.filter_cons_of_neg (by exact opens), List.filter_nil, List.append_nil]
  by_cases closes : placed.token.isEndGroup = true
  · cases waiting : braces.waiting with
    | nil => rw [read_stray closes waiting, waiting]
    | cons opener rest =>
      rw [read_closer closes waiting]
      simp
  · rw [read_other (by simp [Token.isBrace, opens, closes])]

theorem openers_readAll (braces : Braces) (code : List Placed) : (braces.readAll code).openers.Perm
    (braces.openers ++ code.filter fun placed => placed.token.isBeginGroup) := by
  induction code generalizing braces with
  | nil => simp
  | cons placed rest ih =>
    have first := (openers_read braces placed).append_right
      (rest.filter fun placed => placed.token.isBeginGroup)
    rw [List.append_assoc, ← List.filter_append] at first
    exact (ih _).trans first

/-- Every opening brace among distinct tokens is read once. -/
theorem nodup_openers (distinct : code.Nodup) : (of code).openers.Nodup :=
  (openers_readAll ⟨[], [], []⟩ code).nodup_iff.mpr (distinct.filter _)

end Braces

end TexSource
