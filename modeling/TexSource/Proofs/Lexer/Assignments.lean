import TexSource.Proofs.Lexer.Heads

/-!
# The texts of assignments

Behind its control word, an assignment is spelled by three glyphs at most that may be of any kind,
and then by digits, blanks, and an equals sign (`Lexer.exists_text_of_directive`). So no other
directive stands within it, and at most one assignment waits for a place that lies ahead
(`Cursor.Orderly`).
-/

namespace TexSource

namespace Lexer

/-- A glyph that may stand in the number of an assignment, or before it. -/
def isNumberGlyph (glyph : Glyph) : Bool :=
  isNumberDigit glyph || isNumberBlank glyph || glyph = .char '='

theorem exists_digits_of_leadingNumber {text rest : Text} {number : Nat}
    (found : leadingNumber text = .ok (some (number, rest))) :
    ∃ digits, text = digits ++ rest ∧ ∀ glyph ∈ digits, isNumberGlyph glyph = true := by
  refine ⟨text.takeWhile isNumberDigit, ?_, ?_⟩
  · have split : text = text.takeWhile isNumberDigit ++ text.dropWhile isNumberDigit :=
      List.takeWhile_append_dropWhile.symm
    unfold leadingNumber at found
    split at found
    · cases found
    · cases read : readNumber (text.takeWhile isNumberDigit) with
      | error failure =>
        rw [read] at found
        cases found
      | ok value =>
        rw [read] at found
        cases found
        exact split
  · intro glyph member
    simp [isNumberGlyph, List.mem_takeWhile_imp member]

theorem exists_front_of_assignmentTarget {table : Catcode.Table} {text rest : Text} {code : Nat}
    (found : assignmentTarget table text = .ok (some (code, rest))) :
    ∃ front digits, text = front ++ digits ++ rest ∧ front.length ≤ 3 ∧
      ∀ glyph ∈ digits, isNumberGlyph glyph = true := by
  unfold assignmentTarget at found
  split at found
  · rename_i marked
    dsimp only at found
    cases marked with
    | nil => cases found
    | cons glyph behind =>
      dsimp only at found
      by_cases escapes : table.classify glyph = .escape
      · rw [if_pos escapes] at found
        cases behind with
        | nil => cases found
        | cons target behind =>
          cases found
          exact ⟨[.char '\x60', glyph, target], [], rfl, Nat.le_refl _, nofun⟩
      · rw [if_neg escapes] at found
        cases found
        exact ⟨[.char '\x60', glyph], [], rfl, Nat.le_succ _, nofun⟩
  · cases number : leadingNumber text with
    | error failure =>
      rw [number] at found
      cases found
    | ok result =>
      rw [number] at found
      cases result with
      | none => cases found
      | some result =>
        obtain ⟨value, behind⟩ := result
        obtain ⟨digits, split, all⟩ := exists_digits_of_leadingNumber number
        simp only [bind, Except.bind, pure, Except.pure] at found
        split at found
        · cases found
          exact ⟨[], digits, split, Nat.zero_le _, all⟩
        · cases found

theorem exists_between_afterEquals (text : Text) :
    ∃ between, text = between ++ afterEquals text ∧
      ∀ glyph ∈ between, isNumberGlyph glyph = true := by
  have blanks : ∀ text : Text, ∀ glyph ∈ text.takeWhile isNumberBlank,
      isNumberGlyph glyph = true := by
    intro text glyph member
    simp [isNumberGlyph, List.mem_takeWhile_imp member]
  have split : ∀ text : Text, text.takeWhile isNumberBlank ++ text.dropWhile isNumberBlank = text :=
    fun text => List.takeWhile_append_dropWhile
  unfold afterEquals
  split
  · rename_i behind found
    refine ⟨text.takeWhile isNumberBlank ++ .char '=' :: behind.takeWhile isNumberBlank, ?_, ?_⟩
    · rw [List.append_assoc, List.cons_append, split, ← found, split]
    · rw [List.forall_mem_append, List.forall_mem_cons]
      exact ⟨blanks text, rfl, blanks behind⟩
  · exact ⟨_, (split text).symm, blanks text⟩

/-- The text of an assignment. -/
theorem exists_text_of_catcodeAssignment {cursor : Cursor} {text : Text} {assignment : Assignment}
    (found : catcodeAssignment cursor text = .ok (some assignment)) :
    ∃ front numbers rest, text = front ++ numbers ++ rest ∧ front.length ≤ 3 ∧
      (∀ glyph ∈ numbers, isNumberGlyph glyph = true) ∧
      assignment.index = cursor.index + (front ++ numbers).length := by
  unfold catcodeAssignment at found
  cases target : assignmentTarget cursor.table text with
  | error failure =>
    rw [target] at found
    cases found
  | ok result =>
    cases result with
    | none =>
      rw [target] at found
      cases found
    | some result =>
      obtain ⟨code, behind⟩ := result
      rw [target] at found
      simp only [bind, Except.bind] at found
      cases number : leadingNumber (afterEquals behind) with
      | error failure =>
        rw [number] at found
        cases found
      | ok result =>
        cases result with
        | none =>
          rw [number] at found
          cases found
        | some result =>
          obtain ⟨value, rest⟩ := result
          rw [number] at found
          obtain ⟨front, digits, split, short, all⟩ := exists_front_of_assignmentTarget target
          obtain ⟨between, splitBehind, allBetween⟩ := exists_between_afterEquals behind
          obtain ⟨value, splitNumber, allNumber⟩ := exists_digits_of_leadingNumber number
          have whole : text = front ++ (digits ++ between ++ value) ++ rest := by
            rw [split, splitBehind, splitNumber]
            simp
          refine ⟨front, digits ++ between ++ value, rest, whole, short, ?_, ?_⟩
          · rw [List.forall_mem_append, List.forall_mem_append]
            exact ⟨⟨all, allBetween⟩, allNumber⟩
          · simp only [pure, Except.pure, Except.ok.injEq, Option.map_eq_some_iff] at found
            obtain ⟨catcode, _, rfl⟩ := found
            rw [whole, @List.length_append _ _ rest, Nat.add_sub_cancel]

theorem exists_text_of_directive {name : Text} {cursor : Cursor} {text : Text}
    {assignment : Assignment} (found : directive name cursor text = .ok (some assignment)) :
    ∃ front numbers rest, text = front ++ numbers ++ rest ∧ front.length ≤ 3 ∧
      (∀ glyph ∈ numbers, isNumberGlyph glyph = true) ∧
      assignment.index = cursor.index + (front ++ numbers).length := by
  have empty : ∃ front numbers rest, text = front ++ numbers ++ rest ∧ front.length ≤ 3 ∧
      (∀ glyph ∈ numbers, isNumberGlyph glyph = true) ∧
      cursor.index = cursor.index + (front ++ numbers).length :=
    ⟨[], [], text, rfl, Nat.zero_le _, nofun, rfl⟩
  unfold directive at found
  split at found
  · cases found
    exact empty
  · split at found
    · cases found
      exact empty
    · split at found
      · exact exists_text_of_catcodeAssignment found
      · cases found

/-- The name of a directive is longer than what is not a number in an assignment, and does not end
in a glyph of a number. -/
theorem exists_last_of_directive {name : Text} {cursor : Cursor} {text : Text}
    {assignment : Assignment} (found : directive name cursor text = .ok (some assignment)) :
    ∃ front last, name = front ++ [last] ∧ 2 ≤ front.length ∧ isNumberGlyph last = false := by
  unfold directive at found
  split at found
  · rename_i same
    exact ⟨"makeatlette", .char 'r', same, by decide, by decide⟩
  · split at found
    · rename_i same
      exact ⟨"makeatothe", .char 'r', same, by decide, by decide⟩
    · split at found
      · rename_i same
        exact ⟨"catcod", .char 'e', same, by decide, by decide⟩
      · cases found

/-- At most the last of the assignments that wait is for a place ahead, and between the head and
this place stand the glyphs of a number, but for three glyphs at most. -/
structure Cursor.Orderly (text : Text) (cursor : Cursor) : Prop where
  due : ∀ assignment ∈ cursor.pending.dropLast, assignment.index ≤ cursor.index
  numbers : ∀ assignment ∈ cursor.pending, ∀ place, 3 ≤ place →
    cursor.index + place < assignment.index → ∀ glyph ∈ text[place]?, isNumberGlyph glyph = true

namespace Cursor.Orderly

variable {text rest : Text} {cursor head : Cursor}

theorem atStart (text : Text) (table : Catcode.Table) : (Cursor.atStart table).Orderly text :=
  ⟨fun _ member => (nomatch member), fun _ member => (nomatch member)⟩

theorem walks (orderly : cursor.Orderly text) (walks : Walks text cursor rest head) :
    head.Orderly rest := by
  obtain ⟨⟨taken, rfl, moved⟩, past, waited, -⟩ := walks
  constructor
  · intro assignment member
    have last : past ++ head.pending.dropLast = cursor.pending.dropLast := by
      rw [waited, List.dropLast_append_of_ne_nil]
      rintro none
      rw [none] at member
      cases member
    have early := orderly.due assignment (by rw [← last]; exact List.mem_append_right _ member)
    omega
  · intro assignment member place far ahead glyph found
    refine orderly.numbers assignment (by rw [waited]; exact List.mem_append_right _ member)
      (taken.length + place) (by omega) (by omega) glyph ?_
    rwa [List.getElem?_append_right (Nat.le_add_right _ _), Nat.add_sub_cancel_left]

/-- A directive stands behind all that has been waiting. -/
theorem word {glyph : Glyph} {name blanks : Text}
    (orderly : cursor.Orderly (glyph :: (name ++ blanks ++ rest)))
    (walks : Walks (glyph :: (name ++ blanks ++ rest)) cursor rest head)
    {assignment : Option Assignment} (spelled : directive name head rest = .ok assignment) :
    Cursor.Orderly rest { head with pending := head.pending ++ assignment.toList } := by
  have later := orderly.walks walks
  cases assignment with
  | none => simpa using later
  | some assignment =>
    obtain ⟨front, last, rfl, long, letter⟩ := exists_last_of_directive spelled
    obtain ⟨free, numbers, behind, rfl, short, all, reaches⟩ := exists_text_of_directive spelled
    have moved : head.index = cursor.index + (1 + (front.length + 1 + blanks.length)) := by
      obtain ⟨⟨taken, split, moved⟩, -⟩ := walks
      have length := congrArg List.length split
      simp only [List.length_cons, List.length_append, List.length_nil] at length
      omega
    have past : ∀ earlier ∈ head.pending, earlier.index ≤ head.index := by
      intro earlier member
      by_contra ahead
      have number := orderly.numbers earlier (walks.pending_suffix.subset member)
        (1 + front.length) (by omega) (by omega) last (by
          rw [Nat.add_comm, List.getElem?_cons_succ]
          simp)
      rw [letter] at number
      cases number
    constructor
    · intro earlier member
      simp only [Option.toList_some, List.dropLast_concat] at member
      exact past earlier member
    · intro found member place far ahead glyph present
      rcases List.mem_append.mp member with earlier | new
      · have early := past found earlier
        dsimp only at ahead
        omega
      · rw [Option.toList_some, List.mem_singleton] at new
        subst new
        dsimp only at ahead
        rw [reaches, List.length_append] at ahead
        rw [List.append_assoc, List.getElem?_append_right (by omega),
          List.getElem?_append_left (by omega)] at present
        exact all glyph (List.mem_of_getElem? present)

end Cursor.Orderly

/-- **One token** keeps the waiting assignments in order. -/
theorem Cursor.Orderly.nextToken {fileId : FileId} {glyph : Glyph} {rest : Text} {cursor : Cursor}
    (orderly : cursor.Orderly (glyph :: rest))
    (complete : (nextToken fileId glyph rest cursor).failure = none) :
    (nextToken fileId glyph rest cursor).cursor.Orderly
      (nextToken fileId glyph rest cursor).rest := by
  have passed := orderly.walks ((Walks.refl (glyph :: rest) cursor).settle.advance rest)
  cases moves_nextToken complete with
  | opens _ same moved =>
    rw [same, moved]
    exact ⟨passed.due, passed.numbers⟩
  | closes _ same moved =>
    rw [same, moved]
    exact ⟨passed.due, passed.numbers⟩
  | word name blanks _ split head walks assignment spelled moved =>
    rw [moved]
    generalize (Lexer.nextToken fileId glyph rest cursor).rest = ahead at *
    subst split
    exact orderly.word walks spelled
  | other _ walks => exact orderly.walks walks

/-- **Whole runs** keep them in order. -/
theorem Reads.orderly {fileId : FileId} {text ahead : Text} {cursor head : Cursor}
    {tokens : List Token} (reads : Reads fileId text cursor tokens ahead head)
    (orderly : cursor.Orderly text) : head.Orderly ahead := by
  induction reads with
  | done => exact orderly
  | next complete _ ih => exact ih (orderly.nextToken complete)

/-- The first assignment that goes on waiting is for a place ahead. -/
theorem Cursor.lt_of_head?_settle (cursor : Cursor) :
    ∀ first ∈ cursor.settle.pending.head?, cursor.index < first.index := by
  intro first found
  have late := List.head?_dropWhile_not (fun assignment : Assignment =>
    decide (assignment.index ≤ cursor.index)) cursor.pending
  have found : (cursor.pending.dropWhile fun assignment =>
      decide (assignment.index ≤ cursor.index)).head? = some first := found
  rw [found] at late
  simpa using late

/-- Only an assignment for a place ahead goes on waiting when the others come into force. -/
theorem Cursor.Orderly.lt_of_mem_settle {text : Text} {cursor : Cursor}
    (orderly : cursor.Orderly text) :
    ∀ assignment ∈ cursor.settle.pending, cursor.index < assignment.index := by
  have settled := orderly.walks (Walks.refl text cursor).settle
  have late := cursor.lt_of_head?_settle
  cases waits : cursor.settle.pending with
  | nil => exact List.forall_mem_nil _
  | cons first others =>
    have ahead := late first (by rw [waits]; rfl)
    cases others with
    | nil => exact List.forall_mem_singleton.mpr ahead
    | cons next others =>
      have early := settled.due first (by rw [waits]; exact List.mem_cons_self)
      exact absurd ahead (Nat.not_lt.mpr early)

end Lexer

end TexSource
