import TexSource.Proofs.Layout.Pages
import TexSource.Proofs.Layout.RowsAgain

/-!
# Pages that are read again

What is printed for the lines of a layout is written as it is when it is read with items that are
set alike (`Layout.Page.Prints.again`). Blank rows are read as blank lines, and where one was
written, one is called for again, unless it is read as verbatim. Then it stays by itself, and the
row behind it must not call for another one (`Layout.Item.KeepsApart`).
-/

namespace TexSource

namespace Layout

open Lexer

variable {options : Options}

/-- Behind a verbatim item, one that is not verbatim does not belong to a major command. -/
def Item.KeepsApart (item next : Item) : Prop :=
  item.verbatim = true → next.verbatim = false → (next.key <|> next.block) = none

instance (item next : Item) : Decidable (item.KeepsApart next) :=
  inferInstanceAs (Decidable (_ → _ → _))

/-- The items of a line with its line end. -/
def Line.all (line : Line) : List Item :=
  line.items ++ line.lineEnd.toList

theorem flatMap_linesFrom (current items : List Item) :
    (linesFrom current items).flatMap Line.all = current.reverse ++ items := by
  induction items generalizing current with
  | nil =>
    rw [linesFrom]
    split <;> simp [Line.all, *]
  | cons item rest ih =>
    rw [linesFrom]
    split
    · simp [Line.all, ih]
    · simp [ih]

theorem linesFrom_append {items : List Item}
    (inside : ∀ item ∈ items, item.token.isEndOfLine = false) {feed : Item}
    (ends : feed.token.isEndOfLine = true) (current rest : List Item) :
    linesFrom current (items ++ feed :: rest) =
      ⟨current.reverse ++ items, some feed⟩ :: linesFrom [] rest := by
  induction items generalizing current with
  | nil => rw [List.nil_append, linesFrom, if_pos ends, List.append_nil]
  | cons item items ih =>
    rw [List.forall_mem_cons] at inside
    rw [List.cons_append, linesFrom, if_neg (by simp [inside.1]), ih inside.2]
    simp

/-- A page that is written again holds the same, but does not wait for a blank row: where one is
written, it stands there already. -/
structure Page.Echoes (page again : Page) (previous : Option Item) : Prop where
  written : again.written = page.written
  lastKey : again.lastKey = page.lastKey
  settled : again.pendingBlank = false
  pending : page.pendingBlank = true → page.written ≠ [] ∧ ∃ item ∈ previous, item.verbatim = false
  begun : page.written ≠ [] → previous ≠ none

namespace Page

variable {line other : Line} {page again : Page} {previous : Option Item}

theorem keyBehind_again (same : line.Again options other) (lastKey : again.lastKey = page.lastKey) :
    again.keyBehind other = page.keyBehind line := by
  unfold keyBehind
  rw [same.isRaw]
  split
  · rfl
  · rename_i plain
    rw [same.isCommentOnly (by simpa using plain), lastKey, same.key]

/-- A row without a blank row before it. -/
theorem Echoes.add (echoes : page.Echoes again previous) (kept : line.isSkipped = false)
    (same : line.Again options other) (joined : page.parts line = false) :
    again.add options other = page.add options line := by
  have parts : again.parts other = false := by
    unfold parts at joined ⊢
    rw [same.isCode]
    split at joined
    · rename_i code
      rw [if_pos code, echoes.written, echoes.settled, echoes.lastKey, same.key]
      simp only [Bool.and_eq_false_iff, Bool.or_eq_false_iff] at joined ⊢
      exact joined.imp_right fun ⟨_, key⟩ => ⟨trivial, key⟩
    · rename_i noCode
      rw [if_neg noCode, echoes.settled]
  rw [add_written same.isSkipped, add_written kept, parts, joined, same.output,
    keyBehind_again same echoes.lastKey, write, write, echoes.written]

/-- A row with a blank row before it. -/
theorem Echoes.add_parted (echoes : page.Echoes again previous) (kept : line.isSkipped = false)
    (same : line.Again options other) (parted : page.parts line = true) {blank : Item}
    (pending : page.pendingBlank = true → blank.verbatim = false)
    (apart : line.isCode = true → blank.verbatim = true → line.key = none) :
    (again.add options ⟨[], some blank⟩).add options other = page.add options line := by
  have begun : page.written ≠ [] := by
    unfold parts at parted
    split at parted
    · simpa using (Bool.and_eq_true_iff.mp parted).1
    · exact (echoes.pending parted).1
  have isRaw : Line.isRaw ⟨[], some blank⟩ = blank.verbatim := by simp [Line.isRaw, Line.first?]
  cases raw : blank.verbatim with
  | false =>
    have skipped : Line.isSkipped ⟨[], some blank⟩ = true := by
      simp [Line.isSkipped, isRaw, raw, Line.first?]
    have parts : (again.add options ⟨[], some blank⟩).parts other = true := by
      rw [add_skipped skipped]
      unfold parts
      simp [echoes.written, begun]
    have key : (again.add options ⟨[], some blank⟩).keyBehind other = page.keyBehind line := by
      rw [add_skipped skipped]
      exact keyBehind_again same echoes.lastKey
    rw [add_written same.isSkipped, parts, key, add_skipped skipped, add_written kept, parted,
      same.output, write, write, echoes.written]
  | true =>
    have written : again.add options ⟨[], some blank⟩ = ⟨[] :: page.written, false, none⟩ := by
      unfold Page.add
      rw [if_pos (isRaw.trans raw), echoes.settled, write, echoes.written]
      rfl
    have calm : page.pendingBlank = false := by
      by_contra waits
      rw [pending (Bool.not_eq_false _ ▸ waits)] at raw
      cases raw
    have code : line.isCode = true := by
      by_contra noCode
      rw [parts, if_neg noCode, calm] at parted
      cases parted
    have key := apart code raw
    obtain ⟨plain, -, only⟩ := Line.isCode_iff.mp code
    have parts : Page.parts ⟨[] :: page.written, false, none⟩ other = false := by
      rw [parts, same.isCode, if_pos code, same.key, key]
      simp
    have behind : Page.keyBehind ⟨[] :: page.written, false, none⟩ other = page.keyBehind line := by
      rw [keyBehind, keyBehind, same.isRaw, same.isCommentOnly plain, same.key,
        if_neg (by simp [plain]), if_neg (by simp [only]), if_neg (by simp [plain]),
        if_neg (by simp [only])]
    rw [written, add_written same.isSkipped, add_written kept, parts, parted, same.output, behind]
    rfl

end Page

namespace Alike

variable {first last : Option Bool} {items : List Item} {line : Line} {lines : List Line}
  {own rest : List Item} {lineEnd : Item}

/-- Two lines that hold equally much, and what is behind them. -/
theorem lined (alike : Alike first (line.items ++ (line.lineEnd.toList ++ items))
    (own ++ lineEnd :: rest) last)
    (load : Token.load (own.map Item.token) = Token.load (line.items.map Item.token))
    (isEnd : lineEnd.token.isEndOfLine = true) (closes : line.Closes lines) :
    ∃ middle, Alike first line.items own middle ∧
      ∀ ending, line.lineEnd = some ending → Alike (some ending.verbatim) items rest last := by
  obtain ⟨middle, front, behind⟩ := alike.split load
  refine ⟨middle, front, fun ending found => ?_⟩
  rw [found] at behind
  obtain ⟨-, behind⟩ := behind.of_left (Token.isBlank_iff.mpr (.inr (closes.lineEnd ending found)))
  obtain ⟨agrees, behind⟩ := behind.of_right (Token.isBlank_iff.mpr (.inr isEnd))
  rwa [agrees _ rfl]

/-- Of two blank lines, the second one is verbatim if the first one is. -/
theorem verbatim_of_isRaw (alike : Alike first (line.items ++ (line.lineEnd.toList ++ items))
    (own ++ lineEnd :: rest) last)
    (load : Token.load (own.map Item.token) = Token.load (line.items.map Item.token))
    (isEnd : lineEnd.token.isEndOfLine = true) (closes : line.Closes lines) :
    line.first? = none → line.isRaw = true → lineEnd.verbatim = true := by
  intro nothing raw
  have spaces : ∀ item ∈ line.items, item.token.isBlank = true := fun item member =>
    Token.isBlank_iff.mpr (.inl (by simpa using List.find?_eq_none.mp nothing item member))
  have light : Token.load (line.items.map Item.token) = 0 :=
    Token.load_eq_zero.mpr (List.forall_mem_map.mpr spaces)
  rw [← List.append_assoc] at alike
  have equal := alike.blanks_agree
    (List.forall_mem_append.mpr ⟨spaces, fun ending member =>
      Token.isBlank_iff.mpr (.inr (closes.lineEnd ending (Option.mem_toList.mp member)))⟩)
    (List.forall_mem_map.mp (Token.load_eq_zero.mp (load.trans light)))
    (Token.isBlank_iff.mpr (.inr isEnd))
  unfold Line.isRaw at raw
  rw [nothing] at raw
  simp only [Bool.or_eq_true, List.any_eq_true, Option.any_eq_true] at raw
  rcases raw with ⟨item, member, flagged⟩ | ⟨ending, found, flagged⟩
  · exact (equal item (List.mem_append_left _ member)).trans flagged
  · exact (equal ending (List.mem_append_right _ (Option.mem_toList.mpr found))).trans flagged

end Alike

/-- Behind verbatim items, one that is not verbatim does not belong to a major command. -/
theorem key_of_keepsApart {previous : Item} {spaces rest : List Item} {item : Item}
    (apart : (previous :: spaces ++ item :: rest).IsChain Item.KeepsApart)
    (verbatim : previous.verbatim = true) (also : ∀ space ∈ spaces, space.verbatim = true)
    (plain : item.verbatim = false) : (item.key <|> item.block) = none := by
  induction spaces generalizing previous with
  | nil => exact (List.isChain_cons_cons.mp apart).1 verbatim plain
  | cons space spaces ih =>
    rw [List.forall_mem_cons] at also
    exact ih (List.isChain_cons_cons.mp apart).2 also.1 also.2

/-- Behind verbatim blanks, a line of code does not belong to a major command. -/
theorem Alike.key_eq_none {line : Line} {items rest : List Item} {last : Option Bool}
    {previous : Item} (alike : Alike (some true) (line.items ++ rest) items last)
    (code : line.isCode = true)
    (apart : ([previous] ++ (line.items ++ rest)).IsChain Item.KeepsApart)
    (verbatim : previous.verbatim = true) : line.key = none := by
  obtain ⟨plain, visible, -⟩ := Line.isCode_iff.mp code
  obtain ⟨first, found⟩ := Option.isSome_iff_exists.mp visible
  obtain ⟨-, more, dropped⟩ := Line.exists_dropSpaces found
  have whole := List.takeWhile_append_dropWhile (p := (·.token.isSpace)) (l := line.items)
  have spaces : ∀ space ∈ line.items.takeWhile (·.token.isSpace), space.token.isSpace = true :=
    fun space member => by
      have taken := List.mem_takeWhile_imp member
      exact taken
  rw [dropped] at whole
  rw [← whole, List.append_assoc] at alike apart
  obtain ⟨flagged, -⟩ :=
    alike.agrees fun space member => Token.isBlank_iff.mpr (.inl (spaces space member))
  rw [Line.isRaw, found] at plain
  rw [Line.key, found, Option.bind_some]
  have chain : (previous :: line.items.takeWhile (·.token.isSpace) ++
      first :: (more ++ rest)).IsChain Item.KeepsApart := by
    simpa using apart
  exact key_of_keepsApart chain verbatim flagged plain

/-- Items that are read from what is printed, behind a first part of the text. -/
structure Rereads (source behind : Text) (printed : List Token) (items : List Item) : Prop where
  reprints : Reprints printed (items.map Item.token)
  seated : Seated source behind (items.map Item.token)
  whole : source = behind ++ Token.rawText printed
  starts : behind = [] ∨ behind.getLast? = some (.char '\n')
  neat : ∀ token ∈ printed, Neat token

/-- The first row is read as a line. -/
theorem Rereads.exists_line {source behind : Text} {row printed : List Token} {items : List Item}
    (rereads : Rereads source behind (row ++ Token.feed :: printed) items)
    (inside : ∀ token ∈ row, token.isEndOfLine = false) :
    ∃ own lineEnd rest, items = own ++ lineEnd :: rest ∧ Reprints row (own.map Item.token) ∧
      lineEnd.token.isEndOfLine = true ∧ (∀ item ∈ own, item.token.isEndOfLine = false) ∧
      Line.Aligned ⟨own, some lineEnd⟩ ∧
      Rereads source (behind ++ Token.rawText row ++ [.char '\n']) printed rest := by
  obtain ⟨front, back, split, own, tail⟩ := rereads.reprints.exists_of_append
  obtain ⟨other, rest, rfl, same, later⟩ := tail.exists_of_cons rfl
  obtain ⟨items, others, rfl, rfl, shown⟩ := List.map_eq_append_iff.mp split
  obtain ⟨lineEnd, others, rfl, rfl, rfl⟩ := List.map_eq_cons_iff.mp shown
  have kind : lineEnd.token.kind = .endOfLine := kind_of_pieceOf same
  have raw : lineEnd.token.raw = [.char '\n'] := raw_of_pieceOf same
  have within := List.forall_mem_map.mp (own.isEndOfLine_iff.mpr inside)
  have seated := rereads.seated
  rw [List.map_append] at seated
  have neat := rereads.neat
  rw [List.forall_mem_append, List.forall_mem_cons] at neat
  refine ⟨items, lineEnd, others, rfl, own, decide_eq_true kind, within, ?_, ?_⟩
  · refine Line.aligned_of_seated (Token.rawText (Token.feed :: printed)) seated.append.1 ?_
      rereads.starts ?_
    · rw [Line.rawText_eq, own.rawText_eq, rereads.whole, Token.rawText_append, List.append_assoc]
    · rw [Line.rawText_eq, own.rawText_eq]
      intro glyph member
      obtain ⟨token, among, inText⟩ := List.mem_flatMap.mp member
      exact (neat.1 token among).within (inside token among) glyph inText
  · refine ⟨later, ?_, ?_, .inr (by simp), neat.2.2⟩
    · have behind := (@Seated.append _ _ [lineEnd.token] _ seated.append.2).2
      rw [own.rawText_eq] at behind
      simpa [raw] using behind
    · rw [rereads.whole]
      simp [Token.feed, Token.written]

theorem Page.Echoes.refl {page : Page} (settled : page.pendingBlank = false) (previous : Item) :
    page.Echoes page (some previous) where
  written := rfl
  lastKey := rfl
  settled := settled
  pending waits := by simp [settled] at waits
  begun _ := nofun

theorem Rereads.eq_nil {source behind : Text} {items : List Item}
    (rereads : Rereads source behind [] items) : items = [] := by
  have reprints := rereads.reprints
  generalize shown : items.map Item.token = tokens at reprints
  cases reprints
  exact List.map_eq_nil_iff.mp shown

theorem Page.Prints.eq_nil {page : Page} {printed : List Token}
    (prints : page.Prints options [] printed) : printed = [] := by
  cases prints
  rfl

/-- What is printed for lines behind a page is written as it is, when it is read with items that are
set alike. -/
def Page.Resumes (options : Options) (page : Page) (lines : List Line) (printed : List Token) :
    Prop :=
  ∀ (previous : Option Item) {again : Page} {items : List Item} {last : Option Bool}
    {source behind : Text}, Rereads source behind printed items →
      Alike (previous.map Item.verbatim) (lines.flatMap Line.all) items last →
        (previous.toList ++ lines.flatMap Line.all).IsChain Item.KeepsApart →
          page.Echoes again previous →
            ((linesFrom [] items).foldl (Page.add options) again).written =
              (lines.foldl (Page.add options) page).written

section

variable {page : Page} {line : Line} {lines : List Line} {printed : List Token}

/-- Behind a line nothing is closer together than behind its line end. -/
theorem keepsApart_behind {previous : List Item} {lineEnd : Item}
    (ends : line.lineEnd = some lineEnd)
    (apart : (previous ++ (line :: lines).flatMap Line.all).IsChain Item.KeepsApart) :
    ((some lineEnd).toList ++ lines.flatMap Line.all).IsChain Item.KeepsApart := by
  have behind : (previous ++ line.items ++ (lineEnd :: lines.flatMap Line.all)).IsChain
      Item.KeepsApart := by
    simpa [Line.all, ends] using apart
  exact behind.right_of_append

/-- A line that is left out is not printed. -/
theorem Page.resumes_skipped (skipped : line.isSkipped = true) (closes : line.Closes lines)
    (later : (page.add options line).Prints options lines printed)
    (resumes : (page.add options line).Resumes options lines printed) :
    page.Resumes options (line :: lines) printed := by
  intro previous again items last source behind rereads alike apart echoes
  obtain ⟨plain, none⟩ := Bool.and_eq_true_iff.mp skipped
  rw [Bool.not_eq_true'] at plain
  rw [Option.isNone_iff_eq_none] at none
  have added : page.add options line = { page with pendingBlank := page.written ≠ [] } :=
    Page.add_skipped skipped
  rw [List.foldl_cons]
  cases ends : line.lineEnd with
  | none =>
    obtain rfl := closes.last ends
    obtain rfl := later.eq_nil
    rw [rereads.eq_nil, added]
    exact echoes.written
  | some lineEnd =>
    have isEnd := closes.lineEnd lineEnd ends
    have blank : ∀ item ∈ line.items ++ [lineEnd], item.token.isBlank = true := by
      refine List.forall_mem_append.mpr ⟨fun item member => ?_, List.forall_mem_singleton.mpr
        (Token.isBlank_iff.mpr (.inr isEnd))⟩
      exact Token.isBlank_iff.mpr (.inl (by simpa using List.find?_eq_none.mp none item member))
    have unflagged : lineEnd.verbatim = false := by
      unfold Line.isRaw at plain
      rw [none] at plain
      simp only [ends, Option.any_some, Bool.or_eq_false_iff] at plain
      exact plain.2
    rw [List.flatMap_cons, Line.all, ends, Option.toList_some] at alike
    refine resumes (some lineEnd) rereads (alike.of_lefts blank (by simp))
      (keepsApart_behind ends apart) ?_
    rw [added]
    exact ⟨echoes.written, echoes.lastKey, echoes.settled,
      fun waits => ⟨by simpa using waits, lineEnd, rfl, unflagged⟩, fun _ => nofun⟩

variable {tokens row : List Token} (kept : line.isSkipped = false)
  (reprints : Reprints tokens (line.items.map Item.token))
  (rowed : line.Printed options tokens row) (text : Token.rawText row = line.output options)
  (inside : ∀ token ∈ tokens, token.isEndOfLine = false) (closes : line.Closes lines)
  (later : (page.add options line).Prints options lines printed)
  (resumes : (page.add options line).Resumes options lines printed)

include kept reprints rowed text inside closes later resumes

/-- The row of a line is read as a line, which is written as it is, and so are the rows behind
it. -/
theorem Page.written_row {again : Page} {items : List Item} {first last : Option Bool}
    {source behind : Text} {previous : List Item}
    (rereads : Rereads source behind (row ++ Token.feed :: printed) items)
    (alike : Alike first ((line :: lines).flatMap Line.all) items last)
    (apart : (previous ++ (line :: lines).flatMap Line.all).IsChain Item.KeepsApart)
    (same : ∀ other, line.Again options other →
      again.add options other = page.add options line) :
    ((linesFrom [] items).foldl (Page.add options) again).written =
      (lines.foldl (Page.add options) (page.add options line)).written := by
  obtain ⟨own, lineEnd, rest, rfl, reread, isEnd, inner, aligned, rereads⟩ :=
    rereads.exists_line (rowed.isEndOfLine inside)
  have load : Token.load (own.map Item.token) = Token.load (line.items.map Item.token) :=
    reread.load_eq.trans (rowed.load_eq.trans reprints.load_eq.symm)
  rw [List.flatMap_cons, Line.all, List.append_assoc] at alike
  have blank := alike.verbatim_of_isRaw load isEnd closes
  obtain ⟨middle, front, behind⟩ := alike.lined load isEnd closes
  have written : line.Again options ⟨own, some lineEnd⟩ :=
    rowed.again reprints inside text kept reread front (by simpa using blank) aligned
  rw [linesFrom_append inner isEnd, List.reverse_nil, List.nil_append, List.foldl_cons,
    same _ written]
  cases ends : line.lineEnd with
  | none =>
    obtain rfl := closes.last ends
    obtain rfl := later.eq_nil
    rw [rereads.eq_nil]
    rfl
  | some lineEnd =>
    refine resumes (some lineEnd) rereads (behind lineEnd ends) (keepsApart_behind ends apart)
      (.refl ?_ lineEnd)
    rw [Page.add_written kept]
    rfl

/-- A line that is written may have a blank row before it. -/
theorem Page.resumes_written : page.Resumes options (line :: lines)
    ((if page.parts line then [Token.feed] else []) ++ row ++ Token.feed :: printed) := by
  intro previous again items last source behind rereads alike apart echoes
  rw [List.foldl_cons]
  rw [List.append_assoc] at rereads
  cases parted : page.parts line with
  | false =>
    rw [if_neg (by simp [parted]), List.nil_append] at rereads
    exact Page.written_row kept reprints rowed text inside closes later resumes rereads alike apart
      fun other same => echoes.add kept same parted
  | true =>
    rw [if_pos parted] at rereads
    obtain ⟨own, blank, rest, rfl, reread, isEnd, inner, -, behind⟩ :=
      @Rereads.exists_line _ _ [] _ _ rereads (List.forall_mem_nil _)
    obtain rfl : own = [] := by
      generalize shown : own.map Item.token = tokens at reread
      cases reread
      exact List.map_eq_nil_iff.mp shown
    rw [List.nil_append] at alike
    obtain ⟨agrees, alike⟩ := alike.of_right (Token.isBlank_iff.mpr (.inr isEnd))
    rw [linesFrom_append inner isEnd, List.reverse_nil, List.nil_append, List.foldl_cons]
    refine Page.written_row kept reprints rowed text inside closes later resumes behind alike apart
      fun other same => echoes.add_parted kept same parted ?_ ?_
    · intro waits
      obtain ⟨-, item, before, plain⟩ := echoes.pending waits
      rw [← agrees item.verbatim (by simp [Option.mem_def.mp before]), plain]
    · intro code flagged
      rw [flagged] at agrees alike
      rw [Page.parts, if_pos code] at parted
      have begun : page.written ≠ [] := by simpa using (Bool.and_eq_true_iff.mp parted).1
      obtain ⟨item, before⟩ := Option.ne_none_iff_exists'.mp (echoes.begun begun)
      rw [List.flatMap_cons, Line.all, List.append_assoc] at alike apart
      rw [before, Option.toList_some] at apart
      exact alike.key_eq_none code apart (agrees item.verbatim (by simp [before]))

end

/-- **Pages again.** What is printed for the lines of a layout is written as it is, when it is read
with items that are set alike. -/
theorem Page.Prints.again {page : Page} {lines : List Line} {printed : List Token}
    (prints : page.Prints options lines printed) : page.Resumes options lines printed := by
  induction prints with
  | done page =>
    intro previous again items last source behind rereads alike apart echoes
    rw [rereads.eq_nil]
    exact echoes.written
  | skipped skipped closes later ih => exact Page.resumes_skipped skipped closes later ih
  | written kept reprints rowed text inside closes later ih =>
    exact Page.resumes_written kept reprints rowed text inside closes later ih

end Layout

end TexSource
