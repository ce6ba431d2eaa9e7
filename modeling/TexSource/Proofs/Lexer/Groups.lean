import TexSource.Proofs.Document.BraceDepth
import TexSource.Proofs.Lexer.Assignments

/-!
# Category codes and groups

An assignment is made in the innermost layer of the table when the head reaches the end of its
text, and a group's layer goes with the group. So behind a group the table is the one before it
(`Layered.Above`, `Lexer.Reads.above`). An assignment outlives the group that its control word
stands in if its text runs on over the brace that closes the group: then it is still waiting behind
the group (`Lexer.exists_leaves`).
-/

namespace TexSource

namespace Layered

variable {Key Value : Type}

/-- A stack of layers is another one with a number of layers above it. -/
def Above (below : Layered Key Value) (height : Nat) (layered : Layered Key Value) : Prop :=
  ∃ above, above.length = height ∧ layered = ⟨below.bottom, above ++ below.inner⟩

namespace Above

variable {below layered : Layered Key Value} {height : Nat}

theorem push_self (below : Layered Key Value) : Above below 1 below.push :=
  ⟨[[]], rfl, rfl⟩

theorem eq (above : Above below 0 layered) : layered = below := by
  obtain ⟨layers, none, rfl⟩ := above
  rw [List.length_eq_zero_iff.mp none]
  rfl

theorem push (above : Above below height layered) : Above below (height + 1) layered.push := by
  obtain ⟨layers, rfl, rfl⟩ := above
  exact ⟨[] :: layers, rfl, rfl⟩

theorem pop (above : Above below (height + 1) layered) : Above below height layered.pop := by
  obtain ⟨layers, high, rfl⟩ := above
  obtain ⟨layer, layers, rfl⟩ := List.exists_cons_of_length_eq_add_one high
  exact ⟨layers, Nat.succ.inj high, rfl⟩

/-- Local assignments do not reach below the innermost layer. -/
theorem assignLocally [DecidableEq Key] (above : Above below (height + 1) layered) (key : Key)
    (value : Value) : Above below (height + 1) (layered.assignLocally key value) := by
  obtain ⟨layers, high, rfl⟩ := above
  obtain ⟨layer, layers, rfl⟩ := List.exists_cons_of_length_eq_add_one high
  exact ⟨layer.insert key value :: layers, high, rfl⟩

end Above

end Layered

namespace Lexer

variable {fileId : FileId} {text ahead : Text} {cursor head : Cursor} {tokens : List Token}
  {below : Catcode.Table} {height : Nat}

theorem above_assignAll {table : Catcode.Table} (above : below.Above (height + 1) table)
    (assignments : List Assignment) : below.Above (height + 1) (assignAll table assignments) := by
  induction assignments generalizing table with
  | nil => exact above
  | cons assignment rest ih => exact ih (above.assignLocally _ _)

theorem Walks.above (walks : Walks text cursor ahead head)
    (above : below.Above (height + 1) cursor.table) : below.Above (height + 1) head.table := by
  obtain ⟨-, due, -, made⟩ := walks
  rw [made]
  exact above_assignAll above due

/-- Tokens that close no layer down to a height leave the layers below it as they are. -/
theorem Reads.above {behind : Nat} (reads : Reads fileId text cursor tokens ahead head)
    (above : below.Above (height + 1) cursor.table)
    (found : Token.depthBehind height tokens = some behind) :
    below.Above (behind + 1) head.table := by
  induction reads generalizing height with
  | done =>
    cases found
    exact above
  | @next glyph rest _ cursor _ _ complete _ ih =>
    have settled : below.Above (height + 1) cursor.settle.table :=
      (Walks.refl (glyph :: rest) cursor).settle.above above
    cases moves_nextToken complete with
    | opens kind _ moved =>
      rw [Token.depthBehind_beginGroup (by simp [Token.isBeginGroup, kind])] at found
      exact ih (by rw [moved]; exact settled.push) found
    | closes kind _ moved =>
      have closes : (nextToken fileId glyph rest cursor).token.isEndGroup = true := by
        simp [Token.isEndGroup, kind]
      cases height with
      | zero =>
        rw [Token.depthBehind_stray closes] at found
        cases found
      | succ outer =>
        rw [Token.depthBehind_endGroup closes] at found
        exact ih (by rw [moved]; exact settled.pop) found
    | word name _ kind _ middle walks assignment spelled moved =>
      rw [Token.depthBehind_other (by simp [Token.isBrace, Token.isBeginGroup, Token.isEndGroup,
        kind])] at found
      exact ih (by rw [moved]; exact walks.above above) found
    | other noBrace walks =>
      rw [Token.depthBehind_other noBrace] at found
      exact ih (walks.above above) found

/-- A control word among tokens spells an assignment, with the text behind it. -/
def Spells (fileId : FileId) (text : Text) (cursor : Cursor) (tokens : List Token)
    (assignment : Assignment) : Prop :=
  ∃ before word after name rest head, tokens = before ++ word :: after ∧
    word.kind = .controlWord name ∧ Reads fileId text cursor (before ++ [word]) rest head ∧
      directive name head rest = .ok (some assignment)

theorem Spells.cons {glyph : Glyph} {rest : Text} {assignment : Assignment}
    (complete : (nextToken fileId glyph rest cursor).failure = none)
    (spells : Spells fileId (nextToken fileId glyph rest cursor).rest
      (nextToken fileId glyph rest cursor).cursor tokens assignment) :
    Spells fileId (glyph :: rest) cursor ((nextToken fileId glyph rest cursor).token :: tokens)
      assignment := by
  obtain ⟨before, word, after, name, ahead, head, rfl, kind, reads, spelled⟩ := spells
  exact ⟨_ :: before, word, after, name, ahead, head, rfl, kind, .next complete reads, spelled⟩

theorem Spells.append {assignment : Assignment}
    (spells : Spells fileId text cursor tokens assignment) (others : List Token) :
    Spells fileId text cursor (tokens ++ others) assignment := by
  obtain ⟨before, word, after, name, ahead, head, rfl, spelled⟩ := spells
  exact ⟨before, word, after ++ others, name, ahead, head, by simp, spelled⟩

/-- What is left at the end of two lists is left of each of them. -/
theorem exists_of_suffix_append {Item : Type} {left first second : List Item}
    (suffix : left <:+ first ++ second) :
    ∃ before behind, left = before ++ behind ∧ before <:+ first ∧ behind <:+ second := by
  rw [List.suffix_iff_eq_drop, List.drop_append] at suffix
  exact ⟨_, _, suffix, List.drop_suffix .., List.drop_suffix ..⟩

/-- What waits behind a token has waited before it, or is what the token spells. -/
theorem exists_pending_nextToken {glyph : Glyph} {rest : Text}
    (complete : (nextToken fileId glyph rest cursor).failure = none) :
    ∃ kept fresh, (nextToken fileId glyph rest cursor).cursor.pending = kept ++ fresh ∧
      kept <:+ cursor.pending ∧ ∀ assignment ∈ fresh, Spells fileId (glyph :: rest) cursor
        [(nextToken fileId glyph rest cursor).token] assignment := by
  have kept : ∀ {ahead : Text} {later : Cursor}, Walks (glyph :: rest) cursor ahead later →
      later.pending <:+ cursor.pending := fun walks => walks.pending_suffix
  have settled := kept (Walks.refl _ cursor).settle
  cases moves_nextToken complete with
  | opens _ _ moved => exact ⟨_, [], by rw [moved]; exact (List.append_nil _).symm, settled, nofun⟩
  | closes _ _ moved =>
    exact ⟨_, [], by rw [moved]; exact (List.append_nil _).symm, settled, nofun⟩
  | other _ walks => exact ⟨_, [], (List.append_nil _).symm, kept walks, nofun⟩
  | word name _ kind _ middle walks assignment spelled moved =>
    refine ⟨_, _, by rw [moved], kept walks, ?_⟩
    intro found member
    rw [Option.mem_toList.mp member] at spelled
    have same : directive name (nextToken fileId glyph rest cursor).cursor
        (nextToken fileId glyph rest cursor).rest = .ok (some found) := by
      rw [moved]
      exact spelled
    exact ⟨[], _, [], name, _, _, rfl, kind, .next complete (.done ..), same⟩

/-- What waits behind tokens has waited before them, or is what a word among them spells. -/
theorem Reads.exists_pending (reads : Reads fileId text cursor tokens ahead head) :
    ∃ kept fresh, head.pending = kept ++ fresh ∧ kept <:+ cursor.pending ∧
      ∀ assignment ∈ fresh, Spells fileId text cursor tokens assignment := by
  induction reads with
  | done => exact ⟨_, [], (List.append_nil _).symm, List.suffix_refl _, List.forall_mem_nil _⟩
  | @next glyph rest _ cursor _ tokens complete _ ih =>
    obtain ⟨left, later, waits, suffix, spelledLater⟩ := ih
    obtain ⟨kept, fresh, waited, earlier, spelled⟩ := exists_pending_nextToken complete
    rw [waited] at suffix
    obtain ⟨before, behind, rfl, outer, inner⟩ := exists_of_suffix_append suffix
    refine ⟨before, behind ++ later, by rw [waits, List.append_assoc], outer.trans earlier, ?_⟩
    intro assignment member
    rcases List.mem_append.mp member with here | behind
    · exact (spelled assignment (inner.subset here)).append tokens
    · exact (spelledLater assignment behind).cons complete

/-- The head behind an opening brace. -/
theorem Reads.table_of_beginGroup {opener : Token} (opens : opener.isBeginGroup = true)
    (reads : Reads fileId text cursor [opener] ahead head) :
    head.table = cursor.settle.table.push := by
  obtain ⟨glyph, rest, rfl, complete, rfl, done⟩ := reads.exists_of_cons
  obtain ⟨rfl, rfl⟩ := done.eq_of_nil
  cases moves_nextToken complete with
  | opens kind _ moved => rw [moved]
  | closes kind => simp [Token.isBeginGroup, kind] at opens
  | word name _ kind => simp [Token.isBeginGroup, kind] at opens
  | other noBrace => simp [Token.isBrace, opens] at noBrace

/-- The head behind a closing brace. -/
theorem Reads.eq_of_endGroup {closer : Token} (closes : closer.isEndGroup = true)
    (reads : Reads fileId text cursor [closer] ahead head) :
    head.table = cursor.settle.table.pop ∧ head.pending = cursor.settle.pending ∧
      head.index = cursor.index + 1 := by
  obtain ⟨glyph, rest, rfl, complete, rfl, done⟩ := reads.exists_of_cons
  obtain ⟨rfl, rfl⟩ := done.eq_of_nil
  cases moves_nextToken complete with
  | opens kind => simp [Token.isEndGroup, kind] at closes
  | closes kind _ moved =>
    rw [moved]
    exact ⟨rfl, rfl, rfl⟩
  | word name _ kind => simp [Token.isEndGroup, kind] at closes
  | other noBrace => simp [Token.isBrace, closes] at noBrace

/-- Tokens up to a closing brace are followed by others, up to the end of input. -/
theorem exists_content_of_closer {before after content : List Token} {closer : Token}
    {position : Position} (closes : closer.isEndGroup = true)
    (split : before ++ closer :: after = content ++ [Token.endOfInputAt position fileId]) :
    ∃ behind, after = behind ++ [Token.endOfInputAt position fileId] ∧
      content = before ++ closer :: behind := by
  rcases List.eq_nil_or_concat after with rfl | ⟨behind, last, rfl⟩
  · obtain ⟨-, same⟩ := List.append_inj' split rfl
    rw [List.singleton_inj.mp same] at closes
    cases closes
  · rw [List.concat_eq_append, ← List.cons_append, ← List.append_assoc] at split
    obtain ⟨rfl, same⟩ := List.append_inj' split rfl
    exact ⟨behind, by rw [List.concat_eq_append, same], rfl⟩

/-- What a group leaves behind: the table that was in force where it opened, and assignments that
wait because their texts reach over the brace that closes it. Those have been waiting within the
group from its start, or control words in it have spelled them. -/
structure Leaves (fileId : FileId) (outside : Cursor) (group : Text) (inside : Cursor)
    (body : List Token) (behind : Cursor) : Prop where
  table : behind.table = outside.settle.table
  pending : ∃ waiting spelled, behind.pending = waiting ++ spelled ∧ waiting <:+ inside.pending ∧
    ∀ assignment ∈ spelled, Spells fileId group inside body assignment
  reaches : ∀ assignment ∈ behind.pending, behind.index ≤ assignment.index

/-- **Groups.** What is read behind a group depends on the head before the group, and on those
assignments in the group alone whose texts reach over the closing brace. -/
theorem exists_leaves {source : Text} {table : Catcode.Table} {before body after : List Token}
    {opener closer : Token} {diagnostics : List Diagnostic}
    (lexed : lex source table fileId =
      .ok (before ++ [opener] ++ body ++ closer :: after, diagnostics))
    (opens : opener.isBeginGroup = true) (balanced : Token.Balanced body)
    (closes : closer.isEndGroup = true) :
    ∃ text outside group inside rest behind content last,
      Reads fileId source (.atStart table) before text outside ∧
      Reads fileId text outside [opener] group inside ∧
      Reads fileId group inside (body ++ [closer]) rest behind ∧
      Leaves fileId outside group inside body behind ∧
      Reads fileId rest behind content [] last ∧
      after = content ++ [Token.endOfInputAt last.position fileId] := by
  obtain ⟨all, last, reads, split⟩ := exists_reads_of_lex lexed
  obtain ⟨content, rfl, rfl⟩ := exists_content_of_closer closes split
  obtain ⟨middle, ending, readsBody, readsAfter⟩ := reads.exists_of_append
  have orderly := readsBody.orderly (.atStart source table)
  obtain ⟨group, inside, readsOpener, readsBody⟩ := readsBody.exists_of_append
  obtain ⟨text, outside, readsBefore, readsOpener⟩ := readsOpener.exists_of_append
  rw [← List.singleton_append] at readsAfter
  obtain ⟨rest, behind, readsCloser, readsAfter⟩ := readsAfter.exists_of_append
  have opened : outside.settle.table.Above 1 inside.table := by
    rw [readsOpener.table_of_beginGroup opens]
    exact .push_self _
  have above := (Walks.refl middle ending).settle.above (readsBody.above opened balanced)
  obtain ⟨restored, left, moved⟩ := readsCloser.eq_of_endGroup closes
  obtain ⟨kept, fresh, waits, suffix, spelled⟩ := readsBody.exists_pending
  have settled : behind.pending <:+ kept ++ fresh := by
    rw [left, ← waits]
    exact List.dropWhile_suffix _
  obtain ⟨waiting, leaves, split, earlier, inner⟩ := exists_of_suffix_append settled
  refine ⟨text, outside, group, inside, rest, behind, content, last, readsBefore, readsOpener,
    readsBody.append readsCloser, ⟨?_, ?_, ?_⟩, readsAfter, rfl⟩
  · rw [restored]
    exact above.pop.eq
  · exact ⟨waiting, leaves, split, earlier.trans suffix,
      fun assignment member => spelled assignment (inner.subset member)⟩
  · rw [left, moved]
    exact orderly.lt_of_mem_settle

/-- The group at the front of a list of tokens that has a number of tokens inside, if they pass a
test together with those behind it. -/
def frontGroup? (length : Nat) (test : List Token → List Token → Bool) :
    List Token → Option (Token × List Token × Token × List Token)
  | [] => none
  | opener :: rest =>
    match rest.drop length with
    | [] => none
    | closer :: after =>
      if opener.isBeginGroup && closer.isEndGroup && decide (Token.Balanced (rest.take length)) &&
        test (rest.take length) after
      then some (opener, rest.take length, closer, after)
      else none

/-- A text that starts with a group. -/
theorem exists_frontGroup (source : Text) (length : Nat) (test : List Token → List Token → Bool)
    (checked : ((lex source .standard 0).toOption.bind fun read =>
      frontGroup? length test read.1).isSome = true) :
    ∃ opener body closer after diagnostics,
      lex source .standard 0 = .ok ([] ++ [opener] ++ body ++ closer :: after, diagnostics) ∧
      opener.isBeginGroup = true ∧ Token.Balanced body ∧ closer.isEndGroup = true ∧
      test body after = true := by
  obtain ⟨group, found⟩ := Option.isSome_iff_exists.mp checked
  obtain ⟨⟨tokens, diagnostics⟩, lexed, found⟩ := Option.bind_eq_some_iff.mp found
  have lexed : lex source .standard 0 = .ok (tokens, diagnostics) := by
    cases outcome : lex source .standard 0 with
    | error failure =>
      rw [outcome] at lexed
      cases lexed
    | ok read =>
      rw [outcome] at lexed
      cases lexed
      rfl
  unfold frontGroup? at found
  split at found
  · cases found
  · rename_i opener rest whole
    split at found
    · cases found
    · rename_i closer after behind
      split at found
      · rename_i passes
        simp only [Bool.and_eq_true, decide_eq_true_eq] at passes
        obtain ⟨⟨⟨opens, closes⟩, balanced⟩, passes⟩ := passes
        refine ⟨opener, rest.take length, closer, after, diagnostics, ?_, opens, balanced, closes,
          passes⟩
        have whole : tokens = opener :: rest := whole
        rw [lexed, whole, ← behind]
        simp
      · cases found

theorem exists_leaves_letterAt :
    ∃ opener body closer after diagnostics,
      lex "\x7b\\makeatletter\x7b\\a@\x7d\x7d\\a@" .standard 0 =
        .ok ([] ++ [opener] ++ body ++ closer :: after, diagnostics) ∧
      opener.isBeginGroup = true ∧ Token.Balanced body ∧ closer.isEndGroup = true ∧
      ∃ text outside group inside rest behind content last,
        Reads 0 "\x7b\\makeatletter\x7b\\a@\x7d\x7d\\a@" (.atStart .standard) [] text outside ∧
        Reads 0 text outside [opener] group inside ∧
        Reads 0 group inside (body ++ [closer]) rest behind ∧
        Leaves 0 outside group inside body behind ∧
        Reads 0 rest behind content [] last ∧
        after = content ++ [Token.endOfInputAt last.position 0] := by
  obtain ⟨opener, body, closer, after, diagnostics, lexed, opens, balanced, closes, _⟩ :=
    exists_frontGroup "\x7b\\makeatletter\x7b\\a@\x7d\x7d\\a@" 4 (fun _ _ => true)
      (by decide +kernel)
  exact ⟨opener, body, closer, after, diagnostics, lexed, opens, balanced, closes,
    exists_leaves lexed opens balanced closes⟩

/-- A closing brace that is the character of an assignment still closes the group, and then the
assignment is made outside of it: the last brace here closes no group any more. -/
theorem kind_behind_braceAssignment :
    ∃ opener body closer after diagnostics,
      lex "\x7b\\catcode\x60\x7d=12 \x7d" .standard 0 =
        .ok ([] ++ [opener] ++ body ++ closer :: after, diagnostics) ∧
      opener.isBeginGroup = true ∧ Token.Balanced body ∧ closer.isEndGroup = true ∧
      (∃ token ∈ body, token.kind = .controlWord "catcode") ∧
      Catcode.Table.standard.classify (.char '\x7d') = .endGroup ∧
      ∃ token ∈ after, token.kind = .character (.char '\x7d') .other := by
  obtain ⟨opener, body, closer, after, diagnostics, lexed, opens, balanced, closes, passes⟩ :=
    exists_frontGroup "\x7b\\catcode\x60\x7d=12 \x7d" 2
      (fun body after => body.any (·.kind = .controlWord "catcode") &&
        after.any (·.kind = .character (.char '\x7d') .other))
      (by decide +kernel)
  rw [Bool.and_eq_true] at passes
  obtain ⟨word, inside, directive⟩ := List.any_eq_true.mp passes.1
  obtain ⟨brace, behind, other⟩ := List.any_eq_true.mp passes.2
  exact ⟨opener, body, closer, after, diagnostics, lexed, opens, balanced, closes,
    ⟨word, inside, of_decide_eq_true directive⟩, by decide, brace, behind, of_decide_eq_true other⟩

end Lexer

end TexSource
