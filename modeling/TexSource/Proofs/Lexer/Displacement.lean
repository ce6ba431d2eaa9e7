import Mathlib.Logic.Function.Iterate
import TexSource.Proofs.Layers
import TexSource.Proofs.Lexer.Assignments
import TexSource.Proofs.Lexer.Reading

/-!
# The same text at another place

A text is read as the same tokens, but for their places, wherever it stands and whatever stands
behind it (`Lexer.Reads.displaced`), if the head finds the same category codes there, now and behind
the groups that the text may close (`Catcode.Table.Alike`), and if the last of the tokens ends
before the text does. Then no run of glyphs and no number of an assignment goes on in the text
behind (`Lexer.Fenced`).
-/

namespace TexSource

/-- A token without its place. -/
def Token.unplaced (token : Token) : Token :=
  { token with span := default }

namespace Layered

variable {Key Value : Type} {layered : Layered Key Value}

/-- Outside of all groups, closing one changes nothing. -/
theorem pop_of_depth_eq_zero (flat : layered.depth = 0) : layered.pop = layered := by
  obtain ⟨bottom, inner⟩ := layered
  cases List.length_eq_zero_iff.mp flat
  rfl

/-- A local assignment is gone when its group is closed. -/
theorem pop_assignLocally [DecidableEq Key] (inner : layered.depth ≠ 0) (key : Key)
    (value : Value) : (layered.assignLocally key value).pop = layered.pop := by
  obtain ⟨bottom, _ | ⟨innermost, outer⟩⟩ := layered
  · exact absurd rfl inner
  · rfl

end Layered

namespace Catcode.Table

/-- A local assignment changes the category of its glyph only. -/
theorem classify_assignLocally (table : Table) (code : Nat) (catcode : Catcode) (glyph : Glyph) :
    classify (table.assignLocally code catcode) glyph =
      if code = glyph.code then catcode else table.classify glyph := by
  unfold classify
  split
  · rename_i same
    subst same
    have found : (table.assignLocally glyph.code catcode).lookup glyph.code = some catcode :=
      Layered.lookupBelow_assignLocally_zero
    rw [found, Option.getD_some]
  · rename_i different
    have kept : (table.assignLocally code catcode).lookup glyph.code = table.lookup glyph.code :=
      Layered.lookupBelow_assignLocally_of_ne different 0
    rw [kept]

/-- Two tables give glyphs the same category codes, also when groups have ended. -/
def Alike (table other : Table) : Prop :=
  ∀ ended glyph, classify (Layered.pop^[ended] table) glyph =
    classify (Layered.pop^[ended] other) glyph

namespace Alike

variable {table other : Table}

theorem refl (table : Table) : Alike table table :=
  fun _ _ => rfl

/-- Tables that are alike classify alike. -/
theorem classify (alike : Alike table other) (glyph : Glyph) :
    table.classify glyph = other.classify glyph :=
  alike 0 glyph

/-- Tables that are alike are so with a group closed. -/
theorem pop (alike : Alike table other) : Alike table.pop other.pop :=
  fun ended => alike (ended + 1)

/-- Tables that are alike are so with a group opened. -/
theorem push (alike : Alike table other) : Alike table.push other.push := by
  intro ended
  cases ended with
  | zero => exact alike 0
  | succ ended => exact alike ended

/-- A local assignment is forgotten with the innermost layer, unless this is the bottom one. -/
theorem assignLocally (alike : Alike table other) (deep : other.depth = table.depth) (code : Nat)
    (catcode : Catcode) : Alike (table.assignLocally code catcode)
      (other.assignLocally code catcode) := by
  have first : ∀ glyph, Table.classify (table.assignLocally code catcode) glyph =
      Table.classify (other.assignLocally code catcode) glyph := by
    intro glyph
    rw [classify_assignLocally, classify_assignLocally, alike.classify]
  intro ended glyph
  by_cases flat : table.depth = 0
  · have stays : ∀ {flatTable : Table}, flatTable.depth = 0 →
        Layered.pop^[ended] (flatTable.assignLocally code catcode) =
          flatTable.assignLocally code catcode := fun bottom =>
      Function.iterate_fixed (Layered.pop_of_depth_eq_zero
        (Layered.depth_assignLocally.trans bottom)) ended
    rw [stays flat, stays (deep.trans flat), first]
  · cases ended with
    | zero => exact first glyph
    | succ ended =>
      rw [Function.iterate_succ_apply, Function.iterate_succ_apply,
        Layered.pop_assignLocally flat, Layered.pop_assignLocally (deep ▸ flat)]
      exact alike (ended + 1) glyph

end Alike

end Catcode.Table

namespace Lexer

/-- Assignments open and close no group. -/
theorem depth_assignAll (table : Catcode.Table) (assignments : List Assignment) :
    (assignAll table assignments).depth = table.depth := by
  induction assignments generalizing table with
  | nil => rfl
  | cons assignment rest ih => exact (ih _).trans Layered.depth_assignLocally

/-- The same assignments keep tables alike. -/
theorem alike_assignAll {table other : Catcode.Table} (alike : table.Alike other)
    (deep : other.depth = table.depth) (assignments : List Assignment) :
    (assignAll table assignments).Alike (assignAll other assignments) := by
  induction assignments generalizing table other with
  | nil => exact alike
  | cons assignment rest ih =>
    refine ih (alike.assignLocally deep _ _) ?_
    rw [Layered.depth_assignLocally, Layered.depth_assignLocally, deep]

/-- An assignment for a place further on. -/
def Assignment.moved (distance : Nat) (assignment : Assignment) : Assignment :=
  { assignment with index := assignment.index + distance }

/-- Heads from which a text is read alike. If assignments are to be read (`assigns`), the same
number of groups is open for both of them; or else none waits either. -/
structure Cursor.Displaced (assigns : Bool) (distance : Nat) (cursor other : Cursor) : Prop where
  index : other.index = cursor.index + distance
  tables : cursor.table.Alike other.table
  pending : other.pending = cursor.pending.map (Assignment.moved distance)
  depth : assigns = true → other.table.depth = cursor.table.depth
  settled : assigns = false → cursor.pending = []

namespace Cursor.Displaced

variable {assigns : Bool} {distance : Nat} {cursor other : Cursor}

/-- Settling keeps cursors displaced. -/
theorem settle (displaced : cursor.Displaced assigns distance other) :
    cursor.settle.Displaced assigns distance other.settle := by
  have due : ((fun assignment : Assignment => decide (assignment.index ≤ other.index)) ∘
      Assignment.moved distance) = fun assignment => decide (assignment.index ≤ cursor.index) := by
    funext assignment
    simp [Assignment.moved, displaced.index]
  have made : other.settle.table = assignAll other.table
      (cursor.pending.takeWhile fun assignment => assignment.index ≤ cursor.index) := by
    show assignAll other.table (other.pending.takeWhile _) = _
    rw [displaced.pending, List.takeWhile_map, due, assignAll, List.foldl_map]
    rfl
  have table : cursor.settle.table = assignAll cursor.table
      (cursor.pending.takeWhile fun assignment => assignment.index ≤ cursor.index) := rfl
  constructor
  · exact displaced.index
  · rw [made, table]
    cases assigns with
    | true => exact alike_assignAll displaced.tables (displaced.depth rfl) _
    | false =>
      rw [displaced.settled rfl]
      exact displaced.tables
  · show other.pending.dropWhile _ = (cursor.pending.dropWhile _).map _
    rw [displaced.pending, List.dropWhile_map, due]
  · intro assigned
    rw [made, table, depth_assignAll, depth_assignAll, displaced.depth assigned]
  · intro unassigned
    show cursor.pending.dropWhile _ = []
    rw [displaced.settled unassigned]
    rfl

/-- Advancing behind a glyph keeps cursors displaced. -/
theorem advance (displaced : cursor.Displaced assigns distance other) (glyph : Glyph)
    (rest otherRest : Text) :
    (cursor.advance glyph rest).Displaced assigns distance (other.advance glyph otherRest) where
  index := by
    show other.index + 1 = cursor.index + 1 + distance
    rw [displaced.index, Nat.add_right_comm]
  tables := displaced.tables
  pending := displaced.pending
  depth := displaced.depth
  settled := displaced.settled

theorem push (displaced : cursor.Displaced assigns distance other) :
    Displaced assigns distance { cursor with table := cursor.table.push }
      { other with table := other.table.push } where
  index := displaced.index
  tables := displaced.tables.push
  pending := displaced.pending
  depth assigned := congrArg (· + 1) (displaced.depth assigned)
  settled := displaced.settled

theorem pop (displaced : cursor.Displaced assigns distance other) :
    Displaced assigns distance { cursor with table := cursor.table.pop }
      { other with table := other.table.pop } where
  index := displaced.index
  tables := displaced.tables.pop
  pending := displaced.pending
  depth assigned := by
    have deep := displaced.depth assigned
    simp only [Layered.depth, Layered.pop, List.length_tail] at deep ⊢
    rw [deep]
  settled := displaced.settled

end Cursor.Displaced

/-- What ends in a glyph that is no part of a number stops numbers. -/
def Stops (text : Text) : Prop :=
  ∃ front last, text = front ++ [last] ∧ isNumberGlyph last = false

namespace Stops

variable {text more : Text}

theorem of_cons {glyph : Glyph} (stops : Stops (glyph :: text))
    (number : isNumberGlyph glyph = true) : Stops text := by
  obtain ⟨_ | ⟨first, front⟩, last, split, ends⟩ := stops
  · cases split
    rw [number] at ends
    cases ends
  · cases split
    exact ⟨front, last, rfl, ends⟩

/-- A run of glyphs of numbers ends in the text. -/
theorem run (stops : Stops text) {test : Glyph → Bool}
    (numbers : ∀ glyph, test glyph = true → isNumberGlyph glyph = true) (more : Text) :
    (text ++ more).takeWhile test = text.takeWhile test ∧
      (text ++ more).dropWhile test = text.dropWhile test ++ more ∧
        Stops (text.dropWhile test) := by
  induction text with
  | nil =>
    obtain ⟨front, last, split, -⟩ := stops
    simp at split
  | cons glyph rest ih =>
    rw [List.cons_append, List.takeWhile_cons, List.takeWhile_cons, List.dropWhile_cons,
      List.dropWhile_cons]
    by_cases passes : test glyph = true
    · rw [if_pos passes, if_pos passes, if_pos passes, if_pos passes]
      obtain ⟨taken, dropped, still⟩ := ih (stops.of_cons (numbers glyph passes))
      exact ⟨congrArg (glyph :: ·) taken, dropped, still⟩
    · rw [if_neg passes, if_neg passes, if_neg passes, if_neg passes]
      exact ⟨rfl, rfl, stops⟩

/-- Text before does not matter. -/
theorem prefixed (stops : Stops text) (before : Text) : Stops (before ++ text) := by
  obtain ⟨front, last, rfl, ends⟩ := stops
  exact ⟨before ++ front, last, (List.append_assoc ..).symm, ends⟩

end Stops

/-- What has been read of a text, with more text behind it. -/
def Reading.extend {Value : Type} (more : Text)
    (reading : Except NumberError (Option (Value × Text))) :
    Except NumberError (Option (Value × Text)) :=
  reading.map (Option.map (Prod.map id (· ++ more)))

theorem isNumberGlyph_of_digit (glyph : Glyph) (digit : isNumberDigit glyph = true) :
    isNumberGlyph glyph = true := by
  simp [isNumberGlyph, digit]

theorem isNumberGlyph_of_blank (glyph : Glyph) (blank : isNumberBlank glyph = true) :
    isNumberGlyph glyph = true := by
  simp [isNumberGlyph, blank]

/-- A number that stops is read alike with more behind it. -/
theorem leadingNumber_append {text : Text} (stops : Stops text) (more : Text) :
    leadingNumber (text ++ more) = Reading.extend more (leadingNumber text) := by
  obtain ⟨taken, dropped, -⟩ := stops.run isNumberGlyph_of_digit more
  unfold leadingNumber
  rw [taken, dropped]
  split
  · rfl
  · cases readNumber (text.takeWhile isNumberDigit) <;> rfl

theorem afterEquals_of_ne {text rest : Text} {glyph : Glyph} (other : glyph ≠ .char '=')
    (found : text.dropWhile isNumberBlank = glyph :: rest) : afterEquals text = glyph :: rest := by
  unfold afterEquals
  rw [found]
  split
  · rename_i same
    exact absurd (List.cons.inj same).1 other
  · rfl

/-- What stands behind an equals sign is found alike with more behind it. -/
theorem afterEquals_append {text : Text} (stops : Stops text) (more : Text) :
    afterEquals (text ++ more) = afterEquals text ++ more ∧ Stops (afterEquals text) := by
  obtain ⟨-, dropped, still⟩ := stops.run isNumberGlyph_of_blank more
  cases found : text.dropWhile isNumberBlank with
  | nil =>
    rw [found] at still
    obtain ⟨front, last, split, -⟩ := still
    simp at split
  | cons glyph rest =>
    rw [found] at dropped still
    by_cases equals : glyph = .char '='
    · subst equals
      unfold afterEquals
      rw [dropped, found]
      exact (still.of_cons rfl).run isNumberGlyph_of_blank more |>.2
    · rw [afterEquals_of_ne equals dropped, afterEquals_of_ne equals found]
      exact ⟨rfl, still⟩

/-- A number behind a control word that is a code point. -/
def withinCodes (number : Option (Nat × Text)) : Option (Nat × Text) :=
  number.bind fun read => if read.1 ≤ maxCodePoint then some read else none

theorem assignmentTarget_of_ne {glyph : Glyph} (unmarked : glyph ≠ .char '\x60')
    {table : Catcode.Table} {rest : Text} :
    assignmentTarget table (glyph :: rest) =
      (leadingNumber (glyph :: rest)).map withinCodes := by
  unfold assignmentTarget
  split
  · rename_i same
    exact absurd (List.cons.inj same).1 unmarked
  · cases leadingNumber (glyph :: rest) with
    | error failure => rfl
    | ok number => cases number <;> rfl

/-- The target of an assignment is read alike with more behind it. -/
theorem assignmentTarget_append {text : Text} (long : 4 ≤ text.length) (stops : Stops text)
    (more : Text) (table : Catcode.Table) :
    assignmentTarget table (text ++ more) = Reading.extend more (assignmentTarget table text) := by
  obtain ⟨first, second, third, rest, rfl⟩ :
      ∃ first second third rest, text = first :: second :: third :: rest := by
    match text, long with
    | first :: second :: third :: rest, _ => exact ⟨first, second, third, rest, rfl⟩
  by_cases marked : first = .char '\x60'
  · subst marked
    unfold assignmentTarget
    simp only [List.cons_append]
    by_cases escapes : table.classify second = .escape
    · rw [if_pos escapes, if_pos escapes]
      rfl
    · rw [if_neg escapes, if_neg escapes]
      rfl
  · rw [List.cons_append, assignmentTarget_of_ne marked, assignmentTarget_of_ne marked,
      ← List.cons_append, leadingNumber_append stops]
    cases leadingNumber (first :: second :: third :: rest) with
    | error failure => rfl
    | ok result =>
      cases result with
      | none => rfl
      | some result =>
        show (Except.ok (withinCodes (some (result.1, result.2 ++ more))) : Except NumberError _) =
          Reading.extend more (.ok (withinCodes (some result)))
        simp only [withinCodes, Option.bind_some]
        split <;> rfl

/-- Behind a target, the number still stops. -/
theorem stops_of_assignmentTarget {table : Catcode.Table} {text rest : Text} {code : Nat}
    (long : 4 ≤ text.length) (stops : Stops text)
    (found : assignmentTarget table text = .ok (some (code, rest))) : Stops rest := by
  obtain ⟨front, digits, rfl, short, all⟩ := exists_front_of_assignmentTarget found
  obtain ⟨before, last, split, ends⟩ := stops
  rcases List.eq_nil_or_concat rest with rfl | ⟨others, final, rfl⟩
  · rw [List.append_nil] at split long
    rcases List.eq_nil_or_concat digits with rfl | ⟨others, final, rfl⟩
    · simp at long
      omega
    · rw [List.concat_eq_append, ← List.append_assoc] at split
      obtain ⟨-, same⟩ := List.append_inj' split rfl
      have number := all final (by simp)
      rw [List.singleton_inj.mp same, ends] at number
      cases number
  · rw [List.concat_eq_append, ← List.append_assoc] at split
    obtain ⟨-, same⟩ := List.append_inj' split rfl
    exact ⟨others, final, List.concat_eq_append, List.singleton_inj.mp same ▸ ends⟩

/-- An assignment does not reach over the end of a text of four glyphs at least, the last of which
is no part of a number. -/
theorem directive_append {text : Text} (long : 4 ≤ text.length) (stops : Stops text) (more : Text)
    (name : Text) (cursor : Cursor) :
    directive name cursor (text ++ more) = directive name cursor text := by
  unfold directive
  congr 3
  unfold catcodeAssignment
  rw [assignmentTarget_append long stops]
  cases target : assignmentTarget cursor.table text with
  | error failure => rfl
  | ok result =>
    cases result with
    | none => rfl
    | some result =>
      obtain ⟨code, behind⟩ := result
      obtain ⟨equals, still⟩ :=
        afterEquals_append (stops_of_assignmentTarget long stops target) more
      simp only [Reading.extend, Except.map, Option.map, Prod.map, bind, Except.bind, equals,
        leadingNumber_append still, id]
      cases leadingNumber (afterEquals behind) with
      | error failure => rfl
      | ok result =>
        cases result with
        | none => rfl
        | some result => simp [Nat.add_sub_add_right]

/-- Targets are read alike with tables that are alike. -/
theorem assignmentTarget_alike {table other : Catcode.Table} (alike : table.Alike other)
    (text : Text) : assignmentTarget other text = assignmentTarget table text := by
  unfold assignmentTarget
  simp only [alike.classify]

/-- An assignment is read alike from displaced heads. -/
theorem directive_displaced {assigns : Bool} {distance : Nat} {cursor other : Cursor}
    (displaced : cursor.Displaced assigns distance other) (name text : Text) :
    directive name other text =
      (directive name cursor text).map (Option.map (Assignment.moved distance)) := by
  unfold directive
  rw [displaced.index]
  split
  · rfl
  · split
    · rfl
    · split
      · unfold catcodeAssignment
        rw [assignmentTarget_alike displaced.tables, displaced.index]
        cases assignmentTarget cursor.table text with
        | error failure => rfl
        | ok result =>
          cases result with
          | none => rfl
          | some result =>
            simp only [bind, Except.bind]
            cases leadingNumber (afterEquals result.2) with
            | error failure => rfl
            | ok result =>
              cases result with
              | none => rfl
              | some result =>
                simp [Except.map, Assignment.moved, pure, Except.pure, Function.comp_def,
                  Nat.add_right_comm]
      · rfl

/-- No more text stands behind a text, or no assignment reaches over its end. -/
def Fenced (text more : Text) : Prop :=
  more = [] ∨ (4 ≤ text.length ∧ Stops text)

namespace Fenced

variable {text more : Text}

theorem eq_nil (fenced : Fenced [] more) : more = [] := by
  rcases fenced with none | ⟨long, -⟩
  · exact none
  · cases long

theorem prefixed (fenced : Fenced text more) (before : Text) : Fenced (before ++ text) more := by
  rcases fenced with none | ⟨long, stops⟩
  · exact .inl none
  · refine .inr ⟨?_, stops.prefixed before⟩
    rw [List.length_append]
    omega

/-- What is fenced at its end is fenced in all longer texts. -/
theorem of_suffix {rest : Text} (fenced : Fenced rest more) (suffix : rest <:+ text) :
    Fenced text more := by
  obtain ⟨before, rfl⟩ := suffix
  exact fenced.prefixed before

end Fenced

variable {assigns : Bool} {distance : Nat} {cursor other : Cursor} {more : Text}

/-- A directive is read alike within its fence. -/
theorem directive_fenced {text : Text} (displaced : cursor.Displaced assigns distance other)
    (fenced : Fenced text more) (name : Text) :
    directive name other (text ++ more) =
      (directive name cursor text).map (Option.map (Assignment.moved distance)) := by
  rcases fenced with rfl | ⟨long, stops⟩
  · rw [List.append_nil, directive_displaced displaced]
  · rw [directive_append long stops, directive_displaced displaced]

/-- A word that is no directive assigns nothing. -/
theorem directive_of_not_isDirective {name : Text} (other : isDirective (.controlWord name) = false)
    (cursor : Cursor) (text : Text) : directive name cursor text = .ok none := by
  simp only [isDirective, Token.Kind.controlWord.injEq, Bool.or_eq_false_iff,
    decide_eq_false_iff_not] at other
  rw [directive, if_neg other.1.2, if_neg other.2, if_neg other.1.1]

/-- Runs of glyphs that are read alike. -/
structure Munched.Displaced (assigns : Bool) (distance : Nat) (more : Text)
    (munched other : Munched) : Prop where
  taken : other.taken = munched.taken
  rest : other.rest = munched.rest ++ more
  cursor : munched.cursor.Displaced assigns distance other.cursor

/-- A run of glyphs ends in the same place. -/
theorem displaced_munch (wanted : Catcode → Bool) (text more : Text)
    (displaced : cursor.Displaced assigns distance other)
    (ends : (munch wanted text cursor).rest = [] → more = []) :
    (munch wanted text cursor).Displaced assigns distance more
      (munch wanted (text ++ more) other) := by
  induction text generalizing cursor other with
  | nil =>
    obtain rfl := ends rfl
    exact ⟨rfl, rfl, displaced⟩
  | cons glyph rest ih =>
    have settled := displaced.settle
    rw [List.cons_append, munch, munch, ← settled.tables.classify glyph]
    rw [munch] at ends
    dsimp only at ends ⊢
    by_cases taken : wanted (cursor.settle.table.classify glyph) = true
    · rw [if_pos taken] at ends
      rw [if_pos taken, if_pos taken]
      have later := ih (settled.advance glyph rest (rest ++ more)) ends
      exact ⟨congrArg (glyph :: ·) later.taken, later.rest, later.cursor⟩
    · rw [if_neg taken, if_neg taken]
      exact ⟨rfl, rfl, settled⟩

/-- Tokens that are read alike. -/
structure Lexeme.Displaced (assigns : Bool) (distance : Nat) (more : Text)
    (lexeme other : Lexeme) : Prop where
  token : other.token.unplaced = lexeme.token.unplaced
  rest : other.rest = lexeme.rest ++ more
  cursor : lexeme.cursor.Displaced assigns distance other.cursor
  failure : other.failure = lexeme.failure

section

variable (fileId : FileId) (glyph : Glyph) (rest : Text)
  (displaced : cursor.Displaced assigns distance other)

include displaced

theorem displaced_singleGlyph (kind : Token.Kind) :
    (singleGlyph fileId kind glyph rest cursor).Displaced assigns distance more
      (singleGlyph fileId kind glyph (rest ++ more) other) :=
  ⟨rfl, rfl, displaced.advance glyph rest (rest ++ more), rfl⟩

/-- A token of a run of glyphs is displaced as a whole. -/
theorem displaced_munchedToken (wanted : Catcode → Bool) (kind : Text → Token.Kind)
    (fenced : Fenced (munchedToken fileId wanted kind glyph rest cursor).rest more) :
    (munchedToken fileId wanted kind glyph rest cursor).Displaced assigns distance more
      (munchedToken fileId wanted kind glyph (rest ++ more) other) := by
  have ends : (munch wanted rest (cursor.advance glyph rest)).rest = [] → more = [] := by
    intro none
    rw [munchedToken, none] at fenced
    exact fenced.eq_nil
  obtain ⟨taken, left, later⟩ :=
    displaced_munch wanted rest more (displaced.advance glyph rest (rest ++ more)) ends
  exact ⟨by simp only [munchedToken, taken, tokenBetween, Token.unplaced], left, later, rfl⟩

/-- A math shift is displaced as a whole. -/
theorem displaced_mathShift (fenced : Fenced (mathShift fileId glyph rest cursor).rest more) :
    (mathShift fileId glyph rest cursor).Displaced assigns distance more
      (mathShift fileId glyph (rest ++ more) other) := by
  cases rest with
  | nil =>
    obtain rfl := Fenced.eq_nil fenced
    exact displaced_singleGlyph fileId glyph [] displaced _
  | cons next later =>
    have settled := (displaced.advance glyph (next :: later) (next :: later ++ more)).settle
    unfold mathShift
    dsimp only [List.cons_append, singleGlyph] at settled ⊢
    rw [← settled.tables.classify next]
    split
    · exact ⟨rfl, rfl, settled.advance next later (later ++ more), rfl⟩
    · exact ⟨rfl, rfl, settled, rfl⟩

/-- A line end is displaced with the blanks behind it. -/
theorem displaced_lineEnd (fenced : Fenced (lineEnd fileId glyph rest cursor).rest more) :
    (lineEnd fileId glyph rest cursor).Displaced assigns distance more
      (lineEnd fileId glyph (rest ++ more) other) := by
  by_cases pair : ∃ later, glyph = .char '\r' ∧ rest = .char '\n' :: later
  · obtain ⟨later, rfl, rfl⟩ := pair
    exact ⟨rfl, rfl, (displaced.advance _ _ _).advance _ later (later ++ more), rfl⟩
  · have apart : ∀ later, glyph = .char '\r' → rest = .char '\n' :: later → False :=
      fun later first second => pair ⟨later, first, second⟩
    rw [lineEnd.eq_2 fileId glyph rest cursor apart] at fenced ⊢
    have still : ∀ later, glyph = .char '\r' → rest ++ more = .char '\n' :: later → False := by
      intro later first second
      cases rest with
      | nil =>
        rw [Fenced.eq_nil fenced] at second
        cases second
      | cons next behind =>
        exact apart behind first (by rw [(List.cons.inj second).1])
    rw [lineEnd.eq_2 fileId glyph (rest ++ more) other still]
    exact displaced_singleGlyph fileId glyph rest displaced _

/-- A control word is displaced with the assignment that it may hold. -/
theorem displaced_controlWord {start otherStart : Cursor} (letter : Glyph)
    (quiet : assigns = false →
      isDirective (controlWord fileId glyph letter rest start cursor).token.kind = false)
    (fenced : Fenced (controlWord fileId glyph letter rest start cursor).rest more) :
    (controlWord fileId glyph letter rest start cursor).Displaced assigns distance more
      (controlWord fileId glyph letter (rest ++ more) otherStart other) := by
  have left : (controlWord fileId glyph letter rest start cursor).rest =
      (munch (· = .space) (munch (· = .letter) rest (cursor.advance letter rest)).rest
        (munch (· = .letter) rest (cursor.advance letter rest)).cursor).rest := by
    unfold controlWord
    dsimp only
    split <;> rfl
  rw [left] at fenced
  have letters := displaced_munch (· = .letter) rest more
    (displaced.advance letter rest (rest ++ more)) fun none => by
      rw [none] at fenced
      exact fenced.eq_nil
  unfold controlWord at quiet ⊢
  dsimp only at quiet ⊢
  generalize munch (· = .letter) rest (cursor.advance letter rest) = word at *
  generalize munch (· = .letter) (rest ++ more) (other.advance letter (rest ++ more)) =
    otherWord at *
  rw [letters.rest, letters.taken]
  have blanks := displaced_munch (· = .space) word.rest more letters.cursor fun none => by
    rw [none] at fenced
    exact fenced.eq_nil
  generalize munch (· = .space) word.rest word.cursor = gap at *
  generalize munch (· = .space) (word.rest ++ more) otherWord.cursor = otherGap at *
  have spelled := directive_fenced blanks.cursor fenced (letter :: word.taken)
  rw [blanks.rest, blanks.taken, spelled]
  cases found : directive (letter :: word.taken) gap.cursor gap.rest with
  | error failure => exact ⟨rfl, rfl, blanks.cursor, rfl⟩
  | ok assignment =>
    rw [found] at quiet
    refine ⟨rfl, rfl, ?_, rfl⟩
    exact {
      index := blanks.cursor.index
      tables := blanks.cursor.tables
      pending := by
        simp only [blanks.cursor.pending, List.map_append]
        cases assignment <;> rfl
      depth := blanks.cursor.depth
      settled := fun unassigned => by
        rw [directive_of_not_isDirective (quiet unassigned)] at found
        cases found
        rw [blanks.cursor.settled unassigned]
        rfl }

/-- A control sequence is displaced as a whole. -/
theorem displaced_controlSequence
    (quiet : assigns = false →
      isDirective (controlSequence fileId glyph rest cursor).token.kind = false)
    (fenced : Fenced (controlSequence fileId glyph rest cursor).rest more) :
    (controlSequence fileId glyph rest cursor).Displaced assigns distance more
      (controlSequence fileId glyph (rest ++ more) other) := by
  unfold controlSequence at *
  cases rest with
  | nil =>
    obtain rfl := Fenced.eq_nil fenced
    exact ⟨rfl, rfl, displaced.advance glyph [] [], rfl⟩
  | cons next later =>
    have settled := (displaced.advance glyph (next :: later) (next :: later ++ more)).settle
    dsimp only [List.cons_append] at settled quiet fenced ⊢
    rw [← settled.tables.classify next]
    split
    · exact ⟨rfl, rfl, settled, rfl⟩
    · rename_i category
      rw [category] at quiet fenced
      exact displaced_controlWord fileId glyph later settled next quiet fenced
    · exact ⟨rfl, rfl, settled.advance next later (later ++ more), rfl⟩

/-- **One token** is read alike from displaced heads. -/
theorem displaced_nextToken
    (quiet : assigns = false → isDirective (nextToken fileId glyph rest cursor).token.kind = false)
    (fenced : Fenced (nextToken fileId glyph rest cursor).rest more) :
    (nextToken fileId glyph rest cursor).Displaced assigns distance more
      (nextToken fileId glyph (rest ++ more) other) := by
  have settled := displaced.settle
  unfold nextToken at *
  dsimp only at quiet fenced ⊢
  rw [← settled.tables.classify glyph]
  cases category : cursor.settle.table.classify glyph with
  | escape =>
    rw [category] at quiet fenced
    exact displaced_controlSequence fileId glyph rest settled quiet fenced
  | beginGroup => exact ⟨rfl, rfl, (settled.advance glyph rest (rest ++ more)).push, rfl⟩
  | endGroup => exact ⟨rfl, rfl, (settled.advance glyph rest (rest ++ more)).pop, rfl⟩
  | mathShift =>
    rw [category] at fenced
    exact displaced_mathShift fileId glyph rest settled fenced
  | endOfLine =>
    rw [category] at fenced
    exact displaced_lineEnd fileId glyph rest settled fenced
  | space =>
    rw [category] at fenced
    exact displaced_munchedToken fileId glyph rest settled _ _ fenced
  | comment =>
    rw [category] at fenced
    exact displaced_munchedToken fileId glyph rest settled _ _ fenced
  | _ => exact displaced_singleGlyph fileId glyph rest settled _

end

/-- What a lexeme leaves is the end of the text. -/
theorem Lexeme.Moves.suffix {glyph : Glyph} {rest : Text} {lexeme : Lexeme}
    (moves : lexeme.Moves glyph rest cursor) : lexeme.rest <:+ glyph :: rest := by
  cases moves with
  | opens _ passed => exact passed ▸ List.suffix_cons ..
  | closes _ passed => exact passed ▸ List.suffix_cons ..
  | word name blanks _ passed =>
    rw [passed, ← List.cons_append]
    exact List.suffix_append ..
  | other _ walks =>
    obtain ⟨⟨taken, split, -⟩, -⟩ := walks
    exact ⟨taken, split.symm⟩

namespace Reads

variable {fileId : FileId} {text ahead : Text} {head : Cursor} {tokens : List Token}

/-- What is left after reading is the end of the text. -/
theorem suffix (reads : Reads fileId text cursor tokens ahead head) : ahead <:+ text := by
  induction reads with
  | done => exact List.suffix_refl _
  | next complete _ ih => exact ih.trans (moves_nextToken complete).suffix

/-- **A text is read alike at another place**, with more text behind it. -/
theorem displaced (reads : Reads fileId text cursor tokens ahead head)
    (displaced : cursor.Displaced assigns distance other) (fenced : Fenced ahead more)
    (quiet : assigns = false → ∀ token ∈ tokens, isDirective token.kind = false) :
    ∃ others last, Reads fileId (text ++ more) other others (ahead ++ more) last ∧
      others.map Token.unplaced = tokens.map Token.unplaced ∧
        head.Displaced assigns distance last := by
  induction reads generalizing other with
  | done => exact ⟨[], other, .done .., rfl, displaced⟩
  | @next glyph rest ahead cursor head tokens complete later ih =>
    obtain ⟨token, left, moved, failure⟩ := displaced_nextToken fileId glyph rest displaced
      (fun unassigned => quiet unassigned _ List.mem_cons_self)
      (fenced.of_suffix later.suffix)
    obtain ⟨others, last, reads, same, reached⟩ := ih moved fenced
      fun unassigned token member => quiet unassigned token (List.mem_cons_of_mem _ member)
    rw [← left] at reads
    refine ⟨_, last, .next (failure.trans complete) reads, ?_, reached⟩
    exact congrArg₂ List.cons token same

end Reads

/-- A text that cannot be read cannot be read at another place either. -/
theorem failure_displaced (displaced : cursor.Displaced true distance other) (fileId : FileId)
    (text : Text) (tokens others : Array Token) (reports otherReports : Array Diagnostic) :
    (scanFrom fileId others otherReports text other).failure =
      (scanFrom fileId tokens reports text cursor).failure := by
  have nothing : ∀ {text : Text}, Fenced text [] := .inl rfl
  have notOff : ∀ {conclusion : Prop}, true = false → conclusion :=
    fun off => absurd off (by decide)
  fun_induction scanFrom fileId tokens reports text cursor
    generalizing other others otherReports with
  | case1 => rw [scanFrom]
  | case2 tokens reports glyph rest cursor lexeme =>
    rename_i failed
    have same := displaced_nextToken fileId glyph rest displaced notOff nothing
    rw [List.append_nil] at same
    have again := same.failure.trans failed
    rw [scanFrom]
    simp only [again]
  | case3 tokens reports glyph rest cursor lexeme =>
    rename_i done ih
    have same := displaced_nextToken fileId glyph rest displaced notOff nothing
    rw [List.append_nil] at same
    have again := same.failure.trans done
    rw [scanFrom]
    simp only [again]
    rw [same.rest, List.append_nil]
    exact ih same.cursor _ _

end Lexer

end TexSource
