import TexSource.Proofs.Expansion.Consuming
import TexSource.Proofs.Expansion.Directives

/-!
# What scans have read

What a scan has read with a test is what the test went over (`Reading.Over`): tokens that do
not stop it, and behind them the one that does. So blanks are all that is skipped, what stands in
a group is balanced, and the rest of an inclusion directive is a group with the name of a file
(`Scan.ensures_namesFile`).
-/

namespace TexSource

/-- The rest of an inclusion directive behind its control word: a group with the name of a file,
spaces aside. -/
inductive Token.NamesFile : List Token → Prop where
  | intro {spaces name : List Token} {opener closer : Token}
      (blank : ∀ token ∈ spaces, token.isSpace = true) (opens : opener.isBeginGroup = true)
      (balanced : Token.Balanced name) (closes : closer.isEndGroup = true) :
      NamesFile (spaces ++ opener :: (name ++ [closer]))

namespace Expansion

section

variable {Memory : Type} {test : Memory → Token → Memory × Bool} {memory : Memory}

/-- What has been read is what a test goes over, and the token that stops it. -/
def Reading.Over (test : Memory → Token → Memory × Bool) (memory : Memory)
    (reading : Reading Memory) : Prop :=
  ∃ middle, Goes test memory reading.before middle ∧
    ∀ stop ∈ reading.stop, test middle stop = (reading.memory, true)

/-- **What is read with a test is what the test goes over**, up to the token that stops it. -/
theorem Stream.over_readUntil (stream : Stream) :
    (stream.readUntil test memory).Over test memory := by
  obtain ⟨items, calls⟩ := stream
  unfold Stream.readUntil Reading.Over
  fun_induction Stream.readItems test memory items calls with
  | case1 memory calls => exact ⟨memory, .nil memory, by simp⟩
  | case2 memory name rest calls ih => exact ih
  | case3 memory token rest calls remembered tested =>
    refine ⟨memory, .nil memory, ?_⟩
    rintro _ ⟨⟩
    exact tested
  | case4 memory token rest calls remembered stops tested goesOn later ih =>
    obtain ⟨middle, goes, stopped⟩ := ih
    have goesOn : test memory token = (remembered, false) := by
      rw [tested, Bool.eq_false_iff.mpr goesOn]
    exact ⟨middle, .cons goesOn goes, stopped⟩

/-- A test that remembers nothing goes over tokens that do not stop it. -/
theorem Goes.forall {test : Unit → Token → Unit × Bool} {before after : Unit} {tokens : List Token}
    (goes : Goes test before tokens after) : ∀ token ∈ tokens, (test () token).2 = false := by
  induction goes with
  | nil => exact nofun
  | cons goesOn _ ih => exact List.forall_mem_cons.mpr ⟨by rw [goesOn], ih⟩

/-- Only tokens in which no closing brace lacks an opening one are passed in a group. -/
theorem depthBehind_of_goes {depth behind : Nat} {tokens : List Token}
    (goes : Goes Scan.groupTest depth tokens behind) :
    Token.depthBehind depth tokens = some behind := by
  induction goes with
  | nil => rfl
  | @cons depth middle last token rest goesOn _ ih =>
    unfold Scan.groupTest at goesOn
    split at goesOn
    · rename_i opens
      cases goesOn
      rw [Token.depthBehind_beginGroup opens, ih]
    · split at goesOn
      · rename_i closes
        split at goesOn
        · cases goesOn
        · cases goesOn
          rw [Token.depthBehind_endGroup closes, ih]
      · rename_i opens closes
        cases goesOn
        rw [Token.depthBehind_other (by simp [Token.isBrace, opens, closes]), ih]

/-- A group is read up to a closing brace. -/
theorem groupTest_stops {depth behind : Nat} {token : Token}
    (stops : Scan.groupTest depth token = (behind, true)) :
    depth = 0 ∧ token.isEndGroup = true := by
  unfold Scan.groupTest at stops
  split at stops
  · cases stops
  · split at stops
    · rename_i closes
      split at stops
      · exact ⟨rfl, closes⟩
      · cases stops
    · cases stops

end

namespace Scan

theorem ensures_reading {Memory : Type} (test : Memory → Token → Memory × Bool) (memory : Memory)
    (consumed : List Token) :
    Ensures (·.consumed = consumed) (Scan.readUntil test memory) fun reading scanner =>
      scanner.consumed = consumed ++ reading.before ++ reading.stop.toList ∧
        reading.Over test memory := by
  constructor
  rintro scanner rfl
  exact ⟨rfl, Stream.over_readUntil scanner.stream⟩

/-- Only blanks are skipped. -/
theorem ensures_skipped (spacesOnly : Bool) (consumed : List Token) :
    Ensures (·.consumed = consumed) (nextSignificant spacesOnly) fun token scanner =>
      ∃ blanks, (∀ blank ∈ blanks, isSkipped spacesOnly blank = true) ∧
        scanner.consumed = consumed ++ blanks ++ token.toList := by
  apply (ensures_reading _ _ consumed).bind
  intro reading
  apply Ensures.pure
  rintro scanner ⟨same, middle, goes, -⟩
  refine ⟨reading.before, fun blank member => ?_, same⟩
  simpa using goes.forall blank member

/-- The content of a group is balanced, and a closing brace stands behind it. -/
theorem ensures_closedGroup (consumed : List Token) :
    Ensures (·.consumed = consumed) closedGroup fun body scanner =>
      ∀ content ∈ body, Token.Balanced content ∧ ∃ closer, closer.isEndGroup = true ∧
        scanner.consumed = consumed ++ content ++ [closer] := by
  apply (ensures_reading _ _ consumed).bind
  intro reading
  apply Ensures.pure
  rintro scanner ⟨same, middle, goes, stopped⟩ content found
  obtain ⟨closer, stop, rfl⟩ := Option.map_eq_some_iff.mp found
  obtain ⟨rfl, closes⟩ := groupTest_stops (stopped closer stop)
  exact ⟨depthBehind_of_goes goes, closer, closes, by simpa [stop] using same⟩

theorem namesFile_enclosed {first : Token} {rest blanks : List Token}
    (blank : ∀ token ∈ blanks, token.isSpace = true) (plain : first.isBrace = false)
    (quiet : ∀ token ∈ rest, token.isBrace = false) :
    Token.NamesFile (blanks ++ enclosed first rest) :=
  .intro blank rfl (Token.depthBehind_plain (List.forall_mem_cons.mpr ⟨plain, quiet⟩)) rfl

/-- **The rest of a directive is a group with the name of a file.** -/
theorem ensures_namesFile : Ensures (·.consumed = []) inclusion fun found _ =>
    ∀ directive ∈ found, Token.NamesFile directive.tokens := by
  have plain : ∀ token : Token, isAnyCharacter token = true → token.isBrace = false := by
    intro token character
    unfold isAnyCharacter at character
    cases kind : token.kind <;> simp_all [Token.isBrace, Token.isBeginGroup, Token.isEndGroup]
  have spaces : ∀ blanks : List Token, (∀ blank ∈ blanks, isSkipped true blank = true) →
      ∀ blank ∈ blanks, blank.isSpace = true := by
    intro blanks skipped blank member
    simpa [isSkipped] using skipped blank member
  apply (ensures_skipped true []).bind
  intro token
  cases token with
  | none => exact .pure fun _ _ _ found => by cases found
  | some token =>
    dsimp only
    split
    · rename_i opens
      have closed : Ensures (fun scanner => ∃ blanks,
        (∀ blank ∈ blanks, isSkipped true blank = true) ∧
          scanner.consumed = [] ++ blanks ++ (some token).toList) closedGroup
          fun body scanner => ∀ content ∈ body, Token.NamesFile scanner.consumed := by
        constructor
        rintro scanner ⟨blanks, skipped, same⟩ content found
        obtain ⟨balanced, closer, closes, read⟩ :=
          (ensures_closedGroup scanner.consumed).ensure scanner rfl content found
        rw [read, same]
        simpa using Token.NamesFile.intro (spaces blanks skipped) opens balanced closes
      apply closed.bind
      intro body
      cases body with
      | none => exact .pure fun _ _ _ found => by cases found
      | some body =>
        apply Ensures.get
        intro scanner names
        apply Ensures.pure
        rintro _ rfl directive found
        split at found
        · cases found
        · cases found
          exact names body rfl
    · split
      · rename_i character
        apply Ensures.get
        rintro scanner ⟨blanks, skipped, same⟩
        have same : scanner.consumed.dropLast = blanks := by simp [same]
        rw [same]
        have more := ensures_reading (fun _ token => ((), !isAnyCharacter token)) ()
          scanner.consumed
        apply (more.weaken fun now (here : now = scanner) => by rw [here]).bind
        intro reading
        have names : reading.Over (fun _ token => ((), !isAnyCharacter token)) () →
            Token.NamesFile (blanks ++ enclosed token reading.before) := by
          rintro ⟨middle, goes, -⟩
          refine namesFile_enclosed (spaces blanks skipped) (plain token character) ?_
          intro other member
          exact plain other (by simpa using goes.forall other member)
        have back : Ensures (fun now => now.consumed = scanner.consumed ++ reading.before ++
              reading.stop.toList ∧ reading.Over (fun _ token => ((), !isAnyCharacter token)) ())
            unread fun _ _ => Token.NamesFile (blanks ++ enclosed token reading.before) :=
          ⟨fun _ holds => names holds.2⟩
        split
        · apply back.bind
          intro _
          apply Ensures.pure
          rintro _ holds directive ⟨⟩
          exact holds
        · apply Ensures.pure
          rintro _ ⟨-, holds⟩ directive ⟨⟩
          exact names holds
      · exact .pure fun _ _ _ found => by cases found

end Scan

end Expansion

end TexSource
