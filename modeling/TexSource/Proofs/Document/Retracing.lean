import TexSource.Proofs.Document.Built

/-!
# Steps that are taken again

A second reading of the tokens that a first one took takes the same tokens for the same
results (`Parser.Retraces`), also where it finds doubled math shifts split that the
first one had to split (`Parser.Splits`). Steps that retrace make up steps that do
(`Parser.Retraces.bind`), and so do steps that look ahead at what splitting does not
change (`Parser.Retraces.look`).
-/

namespace TexSource

namespace Parser

/-- A state of the second reading at the same place as one of the first, with the given
tokens left. Reports may differ. -/
structure Twin (state : State) (left : List Token) (again : State) : Prop where
  taken : again.taken = state.taken
  created : again.created = state.created
  rest : again.rest = left

/-- A second step gives the same result as a first one from the tokens that the first
one took, when what is left then is what was left before or is split further, and fits. -/
structure RetracesBefore {Result : Type} (fits : List Token → Prop)
    (first second : Parse Result) : Prop where
  retrace : ∀ state left, Splits (first state).2.rest left → fits left →
    ∃ read, (first state).2.taken.toList = state.taken.toList ++ read ∧
      Splits state.rest (read ++ left) ∧
      ∀ again, Twin state (read ++ left) again →
        (second again).1 = (first state).1 ∧ Twin (first state).2 left (second again).2

/-- A second step retraces a first one whatever is left. -/
def Retraces {Result : Type} (first second : Parse Result) : Prop :=
  RetracesBefore (fun _ => True) first second

namespace Retraces

variable {First Second : Type}

/-- Steps that take nothing and give the same. -/
theorem of_keeps {first second : Parse First} (keeps : Keeps first) (again : Keeps second)
    (same : ∀ state other, other.taken = state.taken → other.created = state.created →
      (second other).1 = (first state).1 ∧ (second other).2.taken = (first state).2.taken ∧
        (second other).2.created = (first state).2.created)
    (taken : ∀ state, (first state).2.taken = state.taken) : Retraces first second := by
  constructor
  intro state left splits _
  rw [keeps.rest_eq] at splits
  refine ⟨[], by rw [taken, List.append_nil], splits, fun other twin => ?_⟩
  obtain ⟨result, sameTaken, sameCreated⟩ := same state other twin.taken twin.created
  exact ⟨result, sameTaken, sameCreated, (again.rest_eq other).trans twin.rest⟩

theorem pure (result : First) : Retraces (Pure.pure result) (Pure.pure result) :=
  of_keeps (.pure _) (.pure _) (fun _ _ taken created => ⟨rfl, taken, created⟩) fun _ => rfl

/-- Steps that follow each other, where what the second one takes and what is left fits
the first one. -/
theorem bindBefore {fits : List Token → Prop} {first again : Parse First}
    {second secondAgain : First → Parse Second} (hfirst : RetracesBefore fits first again)
    (hsecond : ∀ result, Retraces (second result) (secondAgain result))
    (fitting : ∀ state later left,
      (second (first state).1 (first state).2).2.taken.toList =
          (first state).2.taken.toList ++ later →
        Splits (first state).2.rest (later ++ left) → fits (later ++ left)) :
    Retraces (first >>= second) (again >>= secondAgain) := by
  constructor
  intro state left splits trivial
  obtain ⟨later, takenLater, restLater, retraceLater⟩ :=
    (hsecond (first state).1).retrace (first state).2 left splits trivial
  obtain ⟨read, taken, rest, retrace⟩ := hfirst.retrace state (later ++ left) restLater
    (fitting state later left takenLater restLater)
  refine ⟨read ++ later, ?_, ?_, fun other twin => ?_⟩
  · rw [bind_apply, takenLater, taken, List.append_assoc]
  · rwa [List.append_assoc]
  · rw [List.append_assoc] at twin
    obtain ⟨same, reached⟩ := retrace other twin
    simp only [bind_apply, same]
    exact retraceLater _ reached

theorem bind {first again : Parse First} {second secondAgain : First → Parse Second}
    (hfirst : Retraces first again)
    (hsecond : ∀ result, Retraces (second result) (secondAgain result)) :
    Retraces (first >>= second) (again >>= secondAgain) :=
  bindBefore hfirst hsecond fun _ _ _ _ _ => trivial

/-- Reports are no part of the result. -/
theorem of_remarks {first second : Parse Unit} (remarks : Remarks first) (again : Remarks second) :
    Retraces first second := by
  refine of_keeps remarks.keeps again.keeps (fun state other taken created => ?_) fun state => ?_
  · obtain ⟨_, _, same⟩ := remarks.unchanged state
    obtain ⟨_, _, sameAgain⟩ := again.unchanged other
    rw [same, sameAgain]
    exact ⟨rfl, taken, created⟩
  · obtain ⟨_, _, same⟩ := remarks.unchanged state
    rw [same]

/-- What a step does may depend on the tokens ahead as far as splitting does not change it. -/
theorem ahead {first second : State → Parse First} (each : ∀ state other,
    Splits state.rest other.rest → Retraces (first state) (second other)) :
    Retraces (fun state => first state state) (fun state => second state state) := by
  constructor
  intro state left splits fits
  obtain ⟨read, taken, rest, _⟩ := (each state state (.refl _)).retrace state left splits fits
  refine ⟨read, taken, rest, fun again twin => ?_⟩
  have finer : Splits state.rest again.rest := twin.rest.symm ▸ rest
  obtain ⟨same, sameTaken, _, retrace⟩ := (each state again finer).retrace state left splits fits
  cases List.append_cancel_left (taken.symm.trans sameTaken)
  exact retrace again twin

/-- Looking at a token ahead. -/
theorem look {context : Context} {distance distanceAgain : State → Nat}
    {second secondAgain : State → Token → Parse First}
    (each : ∀ state other, Splits state.rest other.rest →
      Retraces (second state (state.rest.getD (distance state) context.endOfInput))
        (secondAgain other (other.rest.getD (distanceAgain other) context.endOfInput))) :
    Retraces (get >>= fun state => Parser.look context (distance state) >>= second state)
      (get >>= fun state => Parser.look context (distanceAgain state) >>= secondAgain state) := by
  have steps := ahead each
  exact steps

theorem lookNext {context : Context} {second secondAgain : Token → Parse First}
    (each : ∀ state other : State, Splits state.rest other.rest →
      Retraces (second (state.rest.getD 0 context.endOfInput))
        (secondAgain (other.rest.getD 0 context.endOfInput))) :
    Retraces (Parser.look context 0 >>= second) (Parser.look context 0 >>= secondAgain) := by
  have steps := ahead each
  exact steps

end Retraces

/-- A step that takes the token ahead first, and retraces itself. -/
structure Restarts {Result : Type} (parse : Parse Result) : Prop where
  retraces : Retraces parse parse
  opens : ∀ state token rest, state.rest = token :: rest →
    ∃ more, (parse state).2.taken.toList = state.taken.toList ++ token :: more

namespace Restarts

variable {First Second : Type}

theorem bind {first : Parse First} {second : First → Parse Second} (hfirst : Restarts first)
    (hsecond : ∀ result, Retraces (second result) (second result)) :
    Restarts (first >>= second) where
  retraces := .bind hfirst.retraces hsecond
  opens state token rest ahead := by
    obtain ⟨more, taken⟩ := hfirst.opens state token rest ahead
    obtain ⟨later, takenLater, _⟩ :=
      (hsecond (first state).1).retrace (first state).2 _ (.refl _) trivial
    refine ⟨more ++ later, ?_⟩
    rw [bind_apply, takenLater, taken, List.append_assoc, List.cons_append]

theorem after {first : Parse Unit} {second : Unit → Parse Second} (remarks : Remarks first)
    (hsecond : ∀ result, Restarts (second result)) : Restarts (first >>= second) where
  retraces := .bind (.of_remarks remarks remarks) fun result => (hsecond result).retraces
  opens state token rest ahead := by
    obtain ⟨diagnostics, nestingReported, same⟩ := remarks.unchanged state
    have opens := (hsecond (first state).1).opens (first state).2 token rest (by rw [same, ahead])
    rw [same] at opens
    rw [bind_apply, same]
    exact opens

end Restarts

section

variable (context : Context)

theorem taken_take (state : State) :
    (take context state).2.taken.toList = state.taken.toList ++ state.rest.take 1 := by
  unfold take
  split
  · rename_i none
    simp [none]
  · rename_i token rest ahead
    simp [ahead]

theorem retraces_take : Retraces (take context) (take context) := by
  constructor
  intro state left splits _
  have taken := taken_take context state
  rw [rest_take, ← List.drop_one] at splits
  refine ⟨state.rest.take 1, taken, splits.after_take, fun again twin => ?_⟩
  unfold take at taken ⊢
  cases ahead : state.rest with
  | nil =>
    rw [ahead] at twin splits
    cases splits.eq_nil
    have none : again.rest = [] := twin.rest
    simp only [none, twin.taken, true_and]
    exact ⟨twin.taken, twin.created, none⟩
  | cons token rest =>
    rw [ahead] at twin
    have next : again.rest = token :: left := twin.rest
    simp only [next, twin.taken, true_and]
    exact ⟨rfl, twin.created, rfl⟩

theorem restarts_take : Restarts (take context) where
  retraces := retraces_take context
  opens state token rest ahead := ⟨[], by rw [taken_take, ahead]; rfl⟩

/-- Taking a token by a test that fails on the first half of a doubled math shift if it
fails on the whole. -/
theorem retraces_takeIf (test : Token → Bool)
    (misses : ∀ token, token.kind = .mathShift true → test token = false →
      test (splitShift token).1 = false) :
    Retraces (takeIf context test) (takeIf context test) := by
  constructor
  intro state left splits fits
  cases passes : test (state.rest.getD 0 context.endOfInput) with
  | true =>
    rw [takeIf_of_passes context passes] at splits ⊢
    obtain ⟨read, taken, rest, retrace⟩ := (retraces_take context).retrace state left splits fits
    cases List.append_cancel_left ((taken_take context state).symm.trans taken)
    refine ⟨_, taken, rest, fun again twin => ?_⟩
    have front : again.rest.getD 0 context.endOfInput = state.rest.getD 0 context.endOfInput := by
      rw [twin.rest]
      cases ahead : state.rest with
      | nil =>
        rw [ahead] at rest
        rw [rest.eq_nil]
      | cons token later => rfl
    obtain ⟨same, reached⟩ := retrace again twin
    rw [takeIf_of_passes context (front ▸ passes)]
    exact ⟨congrArg some same, reached⟩
  | false =>
    rw [takeIf_of_fails context passes] at splits ⊢
    refine ⟨[], (List.append_nil _).symm, splits, fun again twin => ?_⟩
    have fails : test (again.rest.getD 0 context.endOfInput) = false := by
      rw [twin.rest]
      generalize state.rest = rest at splits passes
      cases splits with
      | nil => exact passes
      | keep token later => exact passes
      | split doubled later => exact misses _ doubled passes
    rw [takeIf_of_fails context fails]
    exact ⟨rfl, twin⟩

theorem retraces_spanFrom (start : Position) :
    Retraces (spanFrom context start) (spanFrom context start) := by
  refine .of_keeps (keeps_spanFrom ..) (keeps_spanFrom ..) (fun state other taken created => ?_)
    fun _ => rfl
  refine ⟨?_, taken, created⟩
  change (⟨start, (other.taken.back?.getD context.endOfInput).span.stop, context.fileId⟩ : Span) = _
  rw [taken]
  rfl

theorem retraces_newId : Retraces newId newId :=
  .of_keeps keeps_newId keeps_newId (fun _ _ taken created =>
    ⟨created, taken, congrArg Nat.succ created⟩) fun _ => rfl

theorem restarts_leaf : Restarts (leaf context) :=
  (restarts_take context).bind fun _ => .bind retraces_newId fun _ => .pure _

theorem retraces_leaves (count : Nat) : Retraces (leaves context count) (leaves context count) := by
  induction count with
  | zero => exact .pure _
  | succ count ih => exact .bind (restarts_leaf context).retraces fun _ => .bind ih fun _ => .pure _

theorem taken_leaves (count : Nat) (state : State) :
    (leaves context count state).2.taken.toList = state.taken.toList ++ state.rest.take count := by
  induction count generalizing state with
  | zero => exact (List.append_nil _).symm
  | succ count ih =>
    change (leaves context count (leaf context state).2).2.taken.toList = _
    have first : (leaf context state).2.taken.toList = _ := taken_take context state
    rw [ih, first, rest_leaf, List.append_assoc]
    cases state.rest <;> simp

/-- Tokens counted ahead are taken as they are. -/
theorem retraces_leavesAhead {count : List Token → Nat} (stable : Stable count) :
    Retraces (leavesAhead context count) (leavesAhead context count) := by
  constructor
  intro state left splits fits
  obtain ⟨read, taken, rest, retrace⟩ :=
    (retraces_leaves context (count state.rest)).retrace state left splits fits
  cases List.append_cancel_left ((taken_leaves context (count state.rest) state).symm.trans taken)
  have behind : Splits (state.rest.drop (count state.rest)) left := by
    rw [← rest_leaves context]
    exact splits
  refine ⟨_, taken, rest, fun again twin => ?_⟩
  have same : count again.rest = count state.rest := by
    rw [twin.rest]
    exact stable state.rest left behind
  have run : leavesAhead context count again = leaves context (count state.rest) again := by
    rw [← same]
    rfl
  rw [run]
  exact retrace again twin

end

end Parser

end TexSource
