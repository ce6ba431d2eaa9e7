import TexSource.Proofs.Expansion.GivingUp

/-!
# Calls that end while reading ahead

The end of a macro's replacement is a mark among the tokens of a stream. A scan that reads past a
mark ends the call, and where the construct is given up the tokens are put back, but the marks are
not (`Stream.PutBack`). So the tokens that are read again are read under the calls that are open
where the scan stopped (`exists_rereads`), and a macro that has a construct given up at the end of
its replacement calls itself at one depth, up to the limit on all calls.
-/

namespace TexSource

namespace Expansion

def Item.isToken : Item → Bool
  | .token _ => true
  | .endOfCall _ => false

/-- The number of calls that end in a part of a stream. -/
def ended (items : List Item) : Nat :=
  items.countP fun item => !item.isToken

@[simp] theorem ended_append (front rest : List Item) :
    ended (front ++ rest) = ended front + ended rest :=
  List.countP_append

theorem ended_of_isToken {items : List Item} (plain : ∀ item ∈ items, item.isToken = true) :
    ended items = 0 :=
  List.countP_eq_zero.mpr fun item member => by simp [plain item member]

theorem isToken_of_mem_map {tokens : List Token} {item : Item}
    (member : item ∈ tokens.map Item.token) : item.isToken = true := by
  obtain ⟨token, -, rfl⟩ := List.mem_map.mp member
  rfl

namespace Stream

/-- The tokens of a part of a stream, each with the calls that are open when it is read. -/
def openAt : List Item → List Text → List (Token × List Text)
  | [], _ => []
  | .token token :: rest, calls => (token, calls) :: openAt rest calls
  | .endOfCall _ :: rest, calls => openAt rest calls.tail

/-- The tokens that a stream has still to read, each with the calls that are open then. -/
def readings (stream : Stream) : List (Token × List Text) :=
  openAt stream.items stream.calls

theorem openAt_append (front rest : List Item) (calls : List Text) :
    openAt (front ++ rest) calls =
      openAt front calls ++ openAt rest (calls.drop (ended front)) := by
  induction front generalizing calls with
  | nil => rfl
  | cons item front ih =>
    cases item with
    | token token => exact congrArg ((token, calls) :: ·) (ih calls)
    | endOfCall name =>
      have one : ended (.endOfCall name :: front) = 1 + ended front := by
        simp [ended, Item.isToken, Nat.add_comm]
      rw [List.cons_append, openAt, openAt, ih, one, ← List.drop_drop, List.drop_one]

/-- Without the marks, all tokens are read under the same calls. -/
theorem openAt_filter (items : List Item) (calls other : List Text) :
    openAt (items.filter Item.isToken) calls =
      (openAt items other).map fun reading => (reading.1, calls) := by
  induction items generalizing other with
  | nil => rfl
  | cons item items ih =>
    cases item with
    | token token => exact congrArg ((token, calls) :: ·) (ih other)
    | endOfCall name => exact ih other.tail

/-- The front of a stream is put back without its marks. -/
structure PutBack (before : Stream) (front rest : List Item) (after : Stream) : Prop where
  split : before.items = front ++ rest
  items : after.items = front.filter Item.isToken ++ rest
  calls : after.calls = before.calls.drop (ended front)

theorem PutBack.refl (stream : Stream) : stream.PutBack [] stream.items stream :=
  ⟨rfl, rfl, rfl⟩

/-- What was put back may be read once more. -/
theorem PutBack.trans {first second third : Stream} {front rest more behind : List Item}
    (once : first.PutBack front rest second) (again : second.PutBack more behind third) :
    ∃ front rest, first.PutBack front rest third := by
  have plain : ∀ item ∈ front.filter Item.isToken, item.isToken = true :=
    fun item member => List.of_mem_filter member
  have split := once.items.symm.trans again.split
  rcases List.append_eq_append_iff.mp split with ⟨further, same, left⟩ | ⟨further, same, left⟩
  · -- The second reading goes on behind the first.
    subst same left
    refine ⟨front ++ further, behind, ?_, ?_, ?_⟩
    · rw [once.split, List.append_assoc]
    · rw [again.items, List.filter_append, List.filter_append, List.filter_eq_self.mpr plain]
    · rw [again.calls, once.calls, List.drop_drop, ended_append, ended_append,
        ended_of_isToken plain, Nat.zero_add]
  · -- The second reading stays among the tokens that were put back.
    have some : ∀ item ∈ more, item.isToken = true := by
      intro item member
      exact plain item (same ▸ List.mem_append_left _ member)
    refine ⟨front, rest, once.split, ?_, ?_⟩
    · rw [again.items, List.filter_eq_self.mpr some, left, ← List.append_assoc, ← same]
    · rw [again.calls, ended_of_isToken some, List.drop_zero, once.calls]

/-- What is read of a stream stands in front of what is left. -/
theorem exists_front_readItems {Memory : Type} (test : Memory → Token → Memory × Bool)
    (memory : Memory) (items : List Item) (calls : List Text) :
    ∃ front, items = front ++ (readItems test memory items calls).stream.items ∧
      front.filter Item.isToken = ((readItems test memory items calls).before ++
        (readItems test memory items calls).stop.toList).map Item.token ∧
      (readItems test memory items calls).stream.calls = calls.drop (ended front) := by
  fun_induction readItems test memory items calls with
  | case1 => exact ⟨[], rfl, rfl, rfl⟩
  | case2 memory name rest calls ih =>
    obtain ⟨front, split, tokens, calls⟩ := ih
    refine ⟨.endOfCall name :: front, congrArg _ split, tokens, ?_⟩
    rw [calls, ← List.drop_one, List.drop_drop]
    simp [ended, Item.isToken, Nat.add_comm]
  | case3 memory token rest calls => exact ⟨[.token token], rfl, rfl, rfl⟩
  | case4 memory token rest calls remembered stops tested going later ih =>
    obtain ⟨front, split, tokens, calls⟩ := ih
    exact ⟨.token token :: front, congrArg _ split, congrArg _ tokens, calls⟩

end Stream

namespace Scan

/-- A scan that is given up only takes marks from a stream. -/
structure Unmarks {Result : Type} (scan : Scan Result) : Prop where
  putBack : ∀ scanner : Scanner, ∃ front rest,
    (scanner.stream.push scanner.consumed).PutBack front rest
      ((scan scanner).2.stream.push (scan scanner).2.consumed)

/-- **No scan that is given up does more to a stream than to take marks from it.** -/
theorem composes_unmarks : Composes Unmarks where
  pure _ := ⟨fun _ => ⟨_, _, .refl _⟩⟩
  bind hfirst hsecond := by
    refine ⟨fun scanner => ?_⟩
    obtain ⟨_, _, once⟩ := hfirst.putBack scanner
    obtain ⟨_, _, again⟩ := (hsecond _).putBack _
    exact once.trans again
  get := ⟨fun _ => ⟨_, _, .refl _⟩⟩
  readUntil test memory := by
    refine ⟨fun scanner => ?_⟩
    obtain ⟨front, split, tokens, calls⟩ :=
      Stream.exists_front_readItems test memory scanner.stream.items scanner.stream.calls
    have plain : ∀ item ∈ scanner.consumed.map Item.token, item.isToken = true :=
      fun _ => isToken_of_mem_map
    refine ⟨scanner.consumed.map Item.token ++ front,
      (scanner.stream.readUntil test memory).stream.items, ?_, ?_, ?_⟩
    · exact (congrArg _ split).trans (List.append_assoc ..).symm
    · rw [List.filter_append, List.filter_eq_self.mpr plain, tokens, ← List.map_append,
        ← List.append_assoc]
      rfl
    · rw [ended_append, ended_of_isToken plain, Nat.zero_add]
      exact calls
  unread := by
    refine ⟨fun scanner => ⟨[], (scanner.stream.push scanner.consumed).items, ?_⟩⟩
    unfold Scan.unread
    cases last : scanner.consumed.getLast? with
    | none => exact .refl _
    | some token =>
      obtain ⟨before, same⟩ := List.getLast?_eq_some_iff.mp last
      have restored : (scanner.stream.push [token]).push scanner.consumed.dropLast =
          scanner.stream.push scanner.consumed := by
        simp [same, Stream.push]
      dsimp only
      rw [restored]
      exact .refl _
  report _ _ := ⟨fun _ => ⟨_, _, .refl _⟩⟩

end Scan

namespace Branch

variable {settings : Settings} {site : Site} {nested : Nested} {before : Branch}

/-- What is left to read of a stream when a construct is given up. What was read of it is put back
without the marks in it, so that it is read again under the calls that are open behind it. Nothing
is disturbed exactly if no call ended in it. -/
structure Rereads (before : Stream) (front rest : List Item) (after : Stream) : Prop where
  putBack : before.PutBack front rest after
  first : before.readings = Stream.openAt front before.calls ++ Stream.openAt rest after.calls
  again : after.readings =
    (Stream.openAt front before.calls).map (fun reading => (reading.1, after.calls)) ++
      Stream.openAt rest after.calls
  undisturbed : after = before ↔ ∀ item ∈ front, item.isToken = true

theorem rereads_of_putBack {stream after : Stream} {front rest : List Item}
    (back : stream.PutBack front rest after) : Rereads stream front rest after where
  putBack := back
  first := by rw [Stream.readings, back.split, Stream.openAt_append, back.calls]
  again := by
    have plain : ∀ item ∈ front.filter Item.isToken, item.isToken = true :=
      fun item member => List.of_mem_filter member
    rw [Stream.readings, back.items, Stream.openAt_append, ended_of_isToken plain, List.drop_zero,
      Stream.openAt_filter front _ stream.calls]
  undisturbed := by
    constructor
    · rintro rfl
      have same := back.items.symm.trans back.split
      exact List.filter_eq_self.mp (List.append_cancel_right same)
    · intro plain
      have items : after.items = stream.items := by
        rw [back.items, back.split, List.filter_eq_self.mpr plain]
      have calls : after.calls = stream.calls := by
        rw [back.calls, ended_of_isToken plain, List.drop_zero]
      obtain ⟨_, _⟩ := stream
      obtain ⟨_, _⟩ := after
      exact Stream.mk.injEq .. ▸ ⟨items, calls⟩

/-- **A construct that is given up ends the calls that were read past.** -/
theorem exists_rereads {first : Token} {rest : List Token} (expands : before.Expands)
    (ahead : before.stream.tokens = first :: rest)
    (givesUp : GivesUp settings { before with stream := before.stream.next.2 } first) :
    ∃ after front rest, Reads settings site nested before after ∧
      Rereads before.stream.next.2 front rest after.stream := by
  obtain ⟨behind, found, left⟩ := exists_next ahead
  rw [found] at givesUp ⊢
  have same : { before with stream := behind }.Expands := ⟨expands.running, expands.code⟩
  obtain ⟨after, done, back⟩ := putsBack_step Scan.composes_unmarks same givesUp
  have exists_putBack : ∃ front rest, behind.PutBack front rest after.stream := by
    rcases back.stream with unread | ⟨_, scan, unmarks, again⟩
    · rw [unread]
      exact ⟨_, _, .refl _⟩
    · rw [again]
      exact unmarks.putBack ⟨behind, [], #[]⟩
  obtain ⟨front, rest, putBack⟩ := exists_putBack
  exact ⟨after, front, rest, ⟨first, behind, found, done⟩, rereads_of_putBack putBack⟩

/-- A branch that has to read the replacement `\let\a` of a macro `\a` at the end of the input. -/
def selfLet : Branch where
  stream := Stream.pushCall ⟨[], []⟩ "a"
    [.ofKind (.controlWord "let"), .ofKind (.controlWord "a")]
  steps := 1
  aborted := false
  verbatim := none
  output := #[]
  inclusions := #[]
  shared := ⟨Scope.empty, .empty noFiles.currentDirectory, #[], []⟩

/-- The token behind a binding that comes to nothing is read again outside of the call that it was
read in. -/
theorem exists_rereads_selfLet :
    selfLet.stream.next.2.readings = [(Token.ofKind (.controlWord "a"), [("a" : Text)])] ∧
      ∃ after front rest,
        Reads ⟨noFiles, {}, .standard⟩ ⟨0, [0], 0⟩ none selfLet after ∧
        Rereads selfLet.stream.next.2 front rest after.stream ∧
        after.stream.readings = [(Token.ofKind (.controlWord "a"), [])] := by
  have givesUp : GivesUp ⟨noFiles, {}, .standard⟩
      { selfLet with stream := selfLet.stream.next.2 } (.ofKind (.controlWord "let")) :=
    .letBinding ⟨rfl, rfl⟩ rfl
  obtain ⟨after, front, rest, reads, rereads⟩ := exists_rereads ⟨rfl, rfl⟩ rfl givesUp
  refine ⟨rfl, after, front, rest, reads, rereads, ?_⟩
  obtain ⟨token, stream, found, done⟩ := reads
  cases found
  cases done
  rfl

end Branch

/-- Limits of two calls inside each other, and of three altogether. -/
def threeCalls : Limits := ⟨some 2, some 3, 16⟩

/-- **The limit on calls inside each other does not stop a macro that calls itself**, where a
construct is given up at the end of its replacement. The limit on all calls does. -/
theorem sourceText_selfLet :
    ∃ document expanded reports,
      Document.parse "\\def\\a\x7b\\let\\a\x7d\\a" .standard .standard 0 = .ok document ∧
      (expand ⟨noFiles, threeCalls, .standard⟩ document Scope.empty
        (.empty noFiles.currentDirectory)).outcome = .ok (expanded, reports) ∧
      expanded.sourceText = "\\let\\let\\let\\a" ∧
      reports.map Diagnostic.message = ["expansion step limit (3) reached at \\a"] := by
  obtain ⟨document, branch, parsed, ran, passes⟩ :=
    exists_mainRun ⟨noFiles, threeCalls, .standard⟩ "\\def\\a\x7b\\let\\a\x7d\\a" 20
      (fun document branch =>
        decide ((branch.result .standard document).sourceText = "\\let\\let\\let\\a") &&
          decide (branch.shared.diagnostics.toList.map Diagnostic.message =
            ["expansion step limit (3) reached at \\a"])) (by decide +kernel)
  simp only [Bool.and_eq_true, decide_eq_true_eq] at passes
  exact ⟨document, _, _, parsed, outcome_of_mainRun ran, passes⟩

end Expansion

end TexSource
