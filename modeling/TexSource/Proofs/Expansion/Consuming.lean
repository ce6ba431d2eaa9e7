import TexSource.Proofs.Document.BraceDepth
import TexSource.Proofs.Expansion.Heredity

/-!
# What scans consume

Where the tokens ahead have the shape that a scan looks for, it reads them to the last one, leaves
what stands behind, and reports nothing (`Scan.Consumes`). The marks of finished calls among the
tokens make no difference. Groups and delimited arguments are found by the depth of braces
(`Token.depthBehind`).
-/

namespace TexSource

namespace Expansion

/-- Reading with a test goes over tokens, from what is remembered before them to what is
remembered behind them. -/
inductive Goes {Memory : Type} (test : Memory → Token → Memory × Bool) :
    Memory → List Token → Memory → Prop where
  | nil (memory : Memory) : Goes test memory [] memory
  | cons {memory middle last : Memory} {token : Token} {rest : List Token}
      (goesOn : test memory token = (middle, false)) (later : Goes test middle rest last) :
      Goes test memory (token :: rest) last

section

variable {Memory : Type} {test : Memory → Token → Memory × Bool} {memory middle : Memory}
  {tokens : List Token}

/-- A test that remembers nothing goes over tokens that do not stop it. -/
theorem goes_of_forall {test : Unit → Token → Unit × Bool}
    (goesOn : ∀ token ∈ tokens, (test () token).2 = false) : Goes test () tokens () := by
  induction tokens with
  | nil => exact .nil ()
  | cons token rest ih =>
    rw [List.forall_mem_cons] at goesOn
    exact .cons (Prod.ext rfl goesOn.1) (ih goesOn.2)

/-- A group is read to the brace that closes it. -/
theorem goes_groupTest {depth behind : Nat} (found : Token.depthBehind depth tokens = some behind) :
    Goes Scan.groupTest depth tokens behind := by
  fun_induction Token.depthBehind depth tokens with
  | case1 => cases found; exact .nil _
  | case2 depth token rest opens ih => exact .cons (by simp [Scan.groupTest, opens]) (ih found)
  | case3 => cases found
  | case4 token rest opens closes outer ih =>
    exact .cons (by simp [Scan.groupTest, opens, closes]) (ih found)
  | case5 depth token rest opens closes ih =>
    exact .cons (by simp [Scan.groupTest, opens, closes]) (ih found)

theorem groupTest_endGroup {closer : Token} (closes : closer.isEndGroup = true) :
    Scan.groupTest 0 closer = (0, true) := by
  simp [Scan.groupTest, closes, Braces.isBeginGroup_of_isEndGroup closes]

/-- What is read with a test, up to the token that stops it. -/
theorem Stream.readUntil_of_goes {last : Memory} {stop : Token} {rest : List Token}
    {stream : Stream} (goes : Goes test memory tokens middle)
    (stops : test middle stop = (last, true))
    (ahead : stream.tokens = tokens ++ stop :: rest) :
    ∃ later : Stream, later.tokens = rest ∧
      stream.readUntil test memory = ⟨tokens, some stop, last, later⟩ := by
  obtain ⟨items, calls⟩ := stream
  unfold Stream.readUntil
  dsimp only
  induction items generalizing memory tokens calls with
  | nil => simp [Stream.tokens] at ahead
  | cons item items ih =>
    cases item with
    | endOfCall name => exact ih goes calls.tail ahead
    | token token =>
      cases goes with
      | nil =>
        obtain ⟨rfl, behind⟩ := List.cons_eq_cons.mp ahead
        exact ⟨⟨items, calls⟩, behind, by rw [Stream.readItems, stops]; rfl⟩
      | cons goesOn later =>
        obtain ⟨rfl, behind⟩ := List.cons_eq_cons.mp ahead
        obtain ⟨stream, left, read⟩ := ih later calls behind
        exact ⟨stream, left, by rw [Stream.readItems, goesOn]; simp [read]⟩

/-- What is read with a test that nothing stops. -/
theorem Stream.readUntil_of_goes_end {last : Memory} {stream : Stream}
    (goes : Goes test memory tokens last) (ahead : stream.tokens = tokens) :
    ∃ later : Stream, later.tokens = [] ∧
      stream.readUntil test memory = ⟨tokens, none, last, later⟩ := by
  obtain ⟨items, calls⟩ := stream
  unfold Stream.readUntil
  dsimp only
  induction items generalizing memory tokens calls with
  | nil =>
    cases ahead
    cases goes
    exact ⟨⟨[], calls⟩, rfl, rfl⟩
  | cons item items ih =>
    cases item with
    | endOfCall name => exact ih goes calls.tail ahead
    | token token =>
      cases goes with
      | nil => cases ahead
      | cons goesOn later =>
        obtain ⟨rfl, behind⟩ := List.cons_eq_cons.mp ahead
        obtain ⟨stream, left, read⟩ := ih later calls behind
        exact ⟨stream, left, by rw [Stream.readItems, goesOn]; simp [read]⟩

end

namespace Scan

/-- A scan reads the given tokens, leaves the rest, and comes to a result without a report. -/
def Consumes {Result : Type} (scan : Scan Result) (tokens rest : List Token) (result : Result) :
    Prop :=
  ∀ scanner : Scanner, scanner.stream.tokens = tokens ++ rest →
    ∃ stream : Stream, stream.tokens = rest ∧
      scan scanner = (result, ⟨stream, scanner.consumed ++ tokens, scanner.reports⟩)

variable {First Second : Type} {tokens others rest : List Token}

namespace Consumes

theorem pure (result : First) (rest : List Token) :
    Consumes (Pure.pure result) [] rest result :=
  fun scanner ahead => ⟨scanner.stream, ahead, by rw [List.append_nil]; rfl⟩

theorem bind {first : Scan First} {second : First → Scan Second} {middle : First}
    {result : Second} (hfirst : Consumes first tokens (others ++ rest) middle)
    (hsecond : Consumes (second middle) others rest result) :
    Consumes (first >>= second) (tokens ++ others) rest result := by
  intro scanner ahead
  rw [List.append_assoc] at ahead
  obtain ⟨between, behind, ran⟩ := hfirst scanner ahead
  obtain ⟨stream, left, done⟩ := hsecond
    ⟨between, scanner.consumed ++ tokens, scanner.reports⟩ behind
  refine ⟨stream, left, ?_⟩
  change second (first scanner).1 (first scanner).2 = _
  rw [ran, done, List.append_assoc]

/-- Nothing else is read where nothing is done with what was read. -/
theorem map {first : Scan First} {middle : First} (hfirst : Consumes first tokens rest middle)
    (change : First → Second) :
    Consumes (do return change (← first)) tokens rest (change middle) := by
  intro scanner ahead
  obtain ⟨stream, left, done⟩ := hfirst scanner ahead
  refine ⟨stream, left, ?_⟩
  change (change (first scanner).1, (first scanner).2) = _
  rw [done]

theorem readUntil {Memory : Type} {test : Memory → Token → Memory × Bool}
    {memory middle last : Memory} {stop : Token} {next : Reading Memory → Scan Second}
    {result : Second} (goes : Goes test memory tokens middle)
    (stops : test middle stop = (last, true))
    (later : ∀ stream, Consumes (next ⟨tokens, some stop, last, stream⟩) others rest result) :
    Consumes (Scan.readUntil test memory >>= next) (tokens ++ stop :: others) rest result := by
  intro scanner ahead
  rw [List.append_assoc, List.cons_append] at ahead
  obtain ⟨between, behind, read⟩ := Stream.readUntil_of_goes goes stops ahead
  obtain ⟨stream, left, done⟩ :=
    later between ⟨between, scanner.consumed ++ tokens ++ [stop], scanner.reports⟩ behind
  refine ⟨stream, left, ?_⟩
  change next (scanner.stream.readUntil test memory) ⟨_, _, _⟩ = _
  rw [read]
  refine done.trans ?_
  simp

theorem readAll {Memory : Type} {test : Memory → Token → Memory × Bool}
    {memory last : Memory} {next : Reading Memory → Scan Second} {result : Second}
    (goes : Goes test memory tokens last)
    (later : ∀ stream, Consumes (next ⟨tokens, none, last, stream⟩) [] [] result) :
    Consumes (Scan.readUntil test memory >>= next) tokens [] result := by
  intro scanner ahead
  rw [List.append_nil] at ahead
  obtain ⟨between, behind, read⟩ := Stream.readUntil_of_goes_end goes ahead
  obtain ⟨stream, left, done⟩ :=
    later between ⟨between, scanner.consumed ++ tokens ++ [], scanner.reports⟩ behind
  refine ⟨stream, left, ?_⟩
  change next (scanner.stream.readUntil test memory) ⟨_, _, _⟩ = _
  rw [read]
  refine done.trans ?_
  simp

/-- A token that is looked at and put back is not read. -/
theorem unread {first : Scan First} {second : First → Scan Second} {middle : First}
    {result : Second} {token : Token} (hfirst : Consumes first (tokens ++ [token]) rest middle)
    (hsecond : second middle = do Scan.unread; return result) :
    Consumes (first >>= second) tokens (token :: rest) result := by
  intro scanner ahead
  rw [List.append_cons] at ahead
  obtain ⟨stream, left, ran⟩ := hfirst scanner ahead
  refine ⟨stream.push [token], by simp [Stream.tokens_push, left], ?_⟩
  change second (first scanner).1 (first scanner).2 = _
  rw [ran, hsecond]
  change (result, (Scan.unread _).2) = _
  simp [Scan.unread, ← List.append_assoc]

end Consumes

theorem consumes_next (token : Token) (rest : List Token) :
    Consumes next [token] rest (some token) :=
  .readUntil (.nil ()) rfl fun _ => .pure _ _

theorem isSkipped_of_isCharacter {token : Token} {character : Char}
    (same : token.isCharacter character = true) (spacesOnly : Bool) :
    isSkipped spacesOnly token = false := by
  obtain ⟨category, kind⟩ := Token.kind_of_isCharacter same
  simp [isSkipped, Token.isSpace, Token.isEndOfLine, Token.isComment, kind]

theorem isSkipped_of_isBeginGroup {token : Token} (opens : token.isBeginGroup = true)
    (spacesOnly : Bool) : isSkipped spacesOnly token = false := by
  obtain ⟨glyph, kind⟩ := Token.kind_of_isBeginGroup opens
  simp [isSkipped, Token.isSpace, Token.isEndOfLine, Token.isComment, kind]

theorem isSkipped_of_isDefinable {token : Token} (definable : token.isDefinable = true)
    (spacesOnly : Bool) : isSkipped spacesOnly token = false := by
  unfold Token.isDefinable at definable
  cases kind : token.kind <;>
    simp_all [isSkipped, Token.isSpace, Token.isEndOfLine, Token.isComment]

theorem isSkipped_of_isSpace {spaces : List Token}
    (blank : ∀ token ∈ spaces, token.isSpace = true) :
    ∀ token ∈ spaces, isSkipped true token = true :=
  fun token member => by simp [isSkipped, blank token member]

theorem goes_skipped {spacesOnly : Bool} {gap : List Token}
    (skipped : ∀ token ∈ gap, isSkipped spacesOnly token = true) :
    Goes (fun (_ : Unit) token => ((), !isSkipped spacesOnly token)) () gap () :=
  goes_of_forall fun token member => by simp [skipped token member]

/-- What does not count is read with the token behind it. -/
theorem consumes_pastSkipped {spacesOnly : Bool} {gap : List Token} {token : Token}
    (skipped : ∀ token ∈ gap, isSkipped spacesOnly token = true)
    (significant : isSkipped spacesOnly token = false) (rest : List Token) :
    Consumes (nextSignificant spacesOnly) (gap ++ [token]) rest (some token) := by
  have stops : ((), !isSkipped spacesOnly token) = ((), true) := by rw [significant]; rfl
  exact .readUntil (goes_skipped skipped) stops fun _ => .pure _ _

theorem consumes_pastSpaces {spaces : List Token} {token : Token}
    (blank : ∀ token ∈ spaces, token.isSpace = true) (solid : token.isSpace = false)
    (rest : List Token) : Consumes (nextSignificant true) (spaces ++ [token]) rest (some token) :=
  consumes_pastSkipped (isSkipped_of_isSpace blank) (by simp [isSkipped, solid]) rest

/-- Nothing is skipped in front of a token that counts. -/
theorem consumes_nextSignificant {spacesOnly : Bool} {token : Token}
    (significant : isSkipped spacesOnly token = false) (rest : List Token) :
    Consumes (nextSignificant spacesOnly) [token] rest (some token) :=
  consumes_pastSkipped (List.forall_mem_nil _) significant rest

theorem consumes_closedGroup (balanced : Token.Balanced tokens) {closer : Token}
    (closes : closer.isEndGroup = true) (rest : List Token) :
    Consumes closedGroup (tokens ++ [closer]) rest (some tokens) :=
  .readUntil (goes_groupTest balanced) (groupTest_endGroup closes) fun _ => .pure _ _

end Scan

end Expansion

end TexSource
