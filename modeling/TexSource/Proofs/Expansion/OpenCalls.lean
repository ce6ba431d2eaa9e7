import Mathlib.Logic.Relation
import TexSource.Proofs.Expansion.Limits
import TexSource.Proofs.Expansion.Moves

/-!
# The stack of calls and the marks ahead

A branch does four things with its stream: it reads a token, it reads a mark and ends the innermost
call, it puts tokens back, and it puts a replacement in front with a mark behind it, where the limit
leaves room for one more call (`Stream.Operates`). All that it does on the way, also in a scan, is
made of these (`Stream.Reaches`), and each of them keeps the names on the marks ahead the names of
the calls that are open (`Stream.Agrees`).
-/

namespace TexSource

namespace Expansion

namespace Stream

/-- The macros whose replacements end ahead, in the order of reading: the mark of the call that was
made last is read first. -/
def marks (stream : Stream) : List Text :=
  stream.items.filterMap fun
    | .token _ => none
    | .endOfCall name => some name

/-- What is done with a stream at a time. -/
inductive Operates (maxDepth : Nat) : Stream → Stream → Prop where
  | readToken (token : Token) (items : List Item) (calls : List Text) :
      Operates maxDepth ⟨.token token :: items, calls⟩ ⟨items, calls⟩
  | readMark (name : Text) (items : List Item) (calls : List Text) :
      Operates maxDepth ⟨.endOfCall name :: items, calls⟩ ⟨items, calls.tail⟩
  | putBack (stream : Stream) (tokens : List Token) :
      Operates maxDepth stream (stream.push tokens)
  | call (stream : Stream) (name : Text) (replacement : List Token)
      (room : stream.calls.length < maxDepth) :
      Operates maxDepth stream (stream.pushCall name replacement)

/-- What becomes of a stream, one operation after another. -/
def Reaches (maxDepth : Nat) : Stream → Stream → Prop :=
  Relation.ReflTransGen (Operates maxDepth)

/-- The marks ahead are those of the open calls, the innermost first, and there are no more open
calls than the limit allows. -/
structure Agrees (maxDepth : Nat) (stream : Stream) : Prop where
  marks : stream.marks = stream.calls
  depth : stream.calls.length ≤ maxDepth

theorem marks_push (stream : Stream) (tokens : List Token) :
    (stream.push tokens).marks = stream.marks := by
  simp [marks, push, List.filterMap_append]

theorem marks_pushCall (stream : Stream) (name : Text) (replacement : List Token) :
    (stream.pushCall name replacement).marks = name :: stream.marks := by
  simp [marks, pushCall, List.filterMap_append]

theorem agrees_ofTokens (maxDepth : Nat) (tokens : List Token) :
    (ofTokens tokens).Agrees maxDepth := by
  refine ⟨?_, Nat.zero_le _⟩
  simp [marks, ofTokens]

variable {maxDepth : Nat} {before after : Stream}

/-- **One operation** keeps the marks ahead those of the open calls. -/
theorem Operates.agrees (operates : Operates maxDepth before after)
    (agrees : before.Agrees maxDepth) : after.Agrees maxDepth := by
  obtain ⟨same, depth⟩ := agrees
  cases operates with
  | readToken token items calls => exact ⟨same, depth⟩
  | readMark name items calls =>
    have same : name :: marks ⟨items, calls⟩ = calls := same
    refine ⟨congrArg List.tail same, Nat.le_trans ?_ depth⟩
    rw [List.length_tail]
    exact Nat.sub_le _ _
  | putBack _ tokens => exact ⟨(before.marks_push tokens).trans same, depth⟩
  | call _ name replacement room =>
    refine ⟨?_, room⟩
    rw [marks_pushCall, same]
    rfl

/-- **Any number of operations.** -/
theorem Reaches.agrees (reaches : before.Reaches maxDepth after)
    (agrees : before.Agrees maxDepth) : after.Agrees maxDepth := by
  induction reaches with
  | refl => exact agrees
  | tail _ operates ih => exact operates.agrees ih

/-- Reading on takes one item after another. -/
theorem reaches_readItems {Memory : Type} (test : Memory → Token → Memory × Bool)
    (memory : Memory) (items : List Item) (calls : List Text) :
    Reaches maxDepth ⟨items, calls⟩ (readItems test memory items calls).stream := by
  fun_induction readItems test memory items calls with
  | case1 => exact .refl
  | case2 _ _ _ _ ih => exact .head (.readMark ..) ih
  | case3 => exact .single (.readToken ..)
  | case4 _ _ _ _ _ _ _ _ _ ih => exact .head (.readToken ..) ih

theorem reaches_next (stream : Stream) : stream.Reaches maxDepth stream.next.2 :=
  reaches_readItems (fun _ _ => ((), true)) () stream.items stream.calls

/-- Where no token is ahead, the marks that are there are read. -/
theorem items_next_of_finished {stream : Stream} (finished : stream.next.1 = none) :
    stream.next.2.items = [] := by
  obtain ⟨items, calls⟩ := stream
  induction items generalizing calls with
  | nil => rfl
  | cons item items ih =>
    cases item with
    | token token => cases finished
    | endOfCall name => exact ih calls.tail finished

end Stream

/-- A scan operates on the stream, and nothing else changes it. -/
def Scan.Operates (maxDepth : Nat) {Result : Type} (scan : Scan Result) : Prop :=
  ∀ scanner : Scanner, scanner.stream.Reaches maxDepth (scan scanner).2.stream

/-- **Every scan** reads items and puts tokens back. -/
theorem Scan.composes_operates (maxDepth : Nat) : Composes (Scan.Operates maxDepth) where
  pure _ _ := .refl
  bind hfirst hsecond scanner := (hfirst scanner).trans (hsecond _ _)
  get _ := .refl
  readUntil test memory scanner :=
    Stream.reaches_readItems test memory scanner.stream.items scanner.stream.calls
  unread scanner := by
    unfold Scan.unread
    cases scanner.consumed.getLast? with
    | none => exact .refl
    | some token => exact .single (.putBack scanner.stream [token])
  report _ _ _ := .refl

namespace Branch

variable {settings : Settings} {site : Site} {nested : Nested} {branch after : Branch}
  {token : Token} {maxDepth maxSteps maxIncludeDepth : Nat}

theorem reaches_attempt (branch : Branch) {Result : Type} {scan : Scan Result}
    (operates : scan.Operates maxDepth) :
    branch.stream.Reaches maxDepth (branch.attempt scan).2.2.stream :=
  operates ⟨branch.stream, [], #[]⟩

/-- The tokens of a construct that is given up are put back, without the marks among them. -/
theorem reaches_giveUp (branch : Branch) {Result : Type} {scan : Scan Result}
    (operates : scan.Operates maxDepth) (first : Token) :
    branch.stream.Reaches maxDepth
      ((branch.attempt scan).2.2.giveUp first (branch.attempt scan).2.1).stream :=
  (branch.reaches_attempt operates).tail (.putBack _ _)

theorem Defines.operates {Result : Type} {scan : Scan Result} {definition : Macro}
    (found : branch.Defines scan definition) : scan.Operates maxDepth := by
  cases found with
  | definition isGlobal => exact (Scan.composes_operates maxDepth).definition isGlobal
  | letBinding => exact (Scan.composes_operates maxDepth).letBinding _ _
  | marked isGlobal => exact (Scan.composes_operates maxDepth).marked _ isGlobal
  | newCommand => exact (Scan.composes_operates maxDepth).newCommand

/-- Reading a token operates on the stream of the branch. -/
theorem reaches_step (limits : settings.limits = .ofNats maxDepth maxSteps maxIncludeDepth)
    (done : step settings site nested branch token = .ok after) :
    branch.stream.Reaches maxDepth after.stream := by
  have composes := Scan.composes_operates maxDepth
  have progress := progress_step done
  cases moves_of_step done with
  | writes | opens | closes | refuses => exact .refl
  | defines found | provides found => exact branch.reaches_attempt found.operates
  | unmarked isGlobal => exact branch.reaches_attempt (composes.marked _ isGlobal)
  | givesUp scan composed => exact branch.reaches_giveUp (composed composes) token
  | @misses definition problem =>
    exact { branch with steps := branch.steps + 1 }.reaches_giveUp
      (composes.invocation definition token) token
  | enters | passes => exact branch.reaches_attempt composes.environmentName
  | follows => exact branch.reaches_attempt composes.inclusion
  | @calls definition arguments =>
    have oneMore : branch.steps + 1 ≠ branch.steps := Nat.succ_ne_self _
    cases progress with
    | stopped _ _ steps => exact absurd steps oneMore
    | rested _ _ rests => exact absurd rests.steps oneMore
    | called calls =>
      refine .tail ({ branch with steps := branch.steps + 1 }.reaches_attempt
        (composes.invocation definition token)) (.call _ _ _ ?_)
      obtain ⟨_, depth, _, found, _, room⟩ := lt_of_calls calls
      rw [limits] at found
      cases found
      exact Nat.lt_of_le_of_lt
        (calls_attempt _ (Scan.shrinks_invocation definition token)) (Int.ofNat_lt.mp room)

/-- **A whole run** operates on the stream that the branch starts with. -/
theorem Runs.reaches {first : Branch} {called stopped : Nat}
    (runs : Runs settings site nested first branch called stopped)
    (limits : settings.limits = .ofNats maxDepth maxSteps maxIncludeDepth) :
    first.stream.Reaches maxDepth branch.stream := by
  induction runs with
  | start => exact .refl
  | @read branch after stream token called stopped before found done ih =>
    have behind : branch.stream.Reaches maxDepth branch.stream.next.2 := branch.stream.reaches_next
    rw [found] at behind
    exact (ih.trans behind).trans (reaches_step limits done)

end Branch

/-- The calls of a branch and the marks ahead agree at any time: in front of each token, and in the
middle of a scan that reads ahead. So a call is ended only when it is open, there are never more
open calls than the limit allows, and none is left where all is read, be it by a scan or in the
end. -/
structure Branch.KeepsCalls (settings : Settings) (site : Site) (nested : Nested) (maxDepth : Nat)
    (first : Branch) : Prop where
  runs {branch : Branch} {called stopped : Nat}
    (runs : Branch.Runs settings site nested first branch called stopped) :
    first.stream.Reaches maxDepth branch.stream
  next {stream : Stream} (reached : first.stream.Reaches maxDepth stream) :
    first.stream.Reaches maxDepth stream.next.2
  scans {Result : Type} {scan : Scan Result} {scanner : Scanner}
    (composed : ∀ {property : {Result : Type} → Scan Result → Prop},
      Scan.Composes property → property scan)
    (reached : first.stream.Reaches maxDepth scanner.stream) :
    first.stream.Reaches maxDepth (scan scanner).2.stream
  marks {stream : Stream} (reached : first.stream.Reaches maxDepth stream) :
    stream.marks = stream.calls
  depth {stream : Stream} (reached : first.stream.Reaches maxDepth stream) :
    stream.calls.length ≤ maxDepth
  pops {name : Text} {items : List Item} {calls : List Text}
    (reached : first.stream.Reaches maxDepth ⟨.endOfCall name :: items, calls⟩) :
    ∃ outer, calls = name :: outer
  drained {calls : List Text} (reached : first.stream.Reaches maxDepth ⟨[], calls⟩) : calls = []
  finished {last : Branch} (done : Branch.run settings site nested first = .ok last) :
    last.stream = ⟨[], []⟩

theorem Branch.keepsCalls_of_agrees {settings : Settings}
    {maxDepth maxSteps maxIncludeDepth : Nat}
    (limits : settings.limits = .ofNats maxDepth maxSteps maxIncludeDepth) (site : Site)
    (nested : Nested) {first : Branch} (agrees : first.stream.Agrees maxDepth) :
    Branch.KeepsCalls settings site nested maxDepth first where
  runs runs := runs.reaches limits
  next reached := reached.trans (Stream.reaches_next _)
  scans composed reached := reached.trans (composed (Scan.composes_operates maxDepth) _)
  marks reached := (reached.agrees agrees).marks
  depth reached := (reached.agrees agrees).depth
  pops reached := ⟨_, (reached.agrees agrees).marks.symm⟩
  drained reached := (reached.agrees agrees).marks.symm
  finished {last} done := by
    obtain ⟨ending, _, _, runs, ends⟩ := exists_ends settings site nested first
    rw [done] at ends
    cases ends with
    | @finished stream found =>
      have ahead := (runs.reaches limits).agrees agrees
      have behind := (ending.stream.reaches_next.agrees ahead).marks
      have empty : ending.stream.next.2.items = [] :=
        Stream.items_next_of_finished (by rw [found])
      rw [found] at behind empty
      obtain ⟨items, calls⟩ := stream
      cases empty
      cases behind
      rfl

/-- **The stack of calls is what the marks ahead tell**, whatever a document, a scope, and a file
system are, and whatever files are around the branch. -/
theorem keepsCalls_start (files : FileSystem) (commands : CommandTable)
    (maxDepth maxSteps maxIncludeDepth : Nat) (site : Site) (nested : Nested) (document : Document)
    (shared : Shared) :
    Branch.KeepsCalls ⟨files, .ofNats maxDepth maxSteps maxIncludeDepth, commands⟩ site nested
      maxDepth (.start document shared) :=
  Branch.keepsCalls_of_agrees rfl site nested (Stream.agrees_ofTokens ..)

end Expansion

end TexSource
