import TexSource.Document.Traversal

/-!
# Steps of reading a document

A document is read by steps on a state: the tokens taken and those ahead, and what has
been built from the former. No step leaves more to take than it finds
(`Parser.Shrinks`), where a doubled math shift that may still be split counts twice
(`Parser.weight`), and the steps that start a construct take a token
(`Parser.Advances`). Reading ends for this reason.
-/

namespace TexSource

namespace Parser

/-- The number of levels that groups, formulas, environments and optional arguments
may open inside each other. -/
def maxNesting : Nat := 64

/-- What stays the same while a document is read. -/
structure Context where
  fileId : FileId
  commands : CommandTable
  endOfInput : Token

/-- The tokens taken and those ahead, and what has been built from the former. -/
structure State where
  taken : Array Token
  rest : List Token
  created : Nat
  diagnostics : Array Diagnostic
  nestingReported : Bool

/-- A computation that reads tokens of a document. -/
abbrev Parse := StateM State

/-- Two computations one after another, the second behind the state that the first leaves. -/
theorem bind_apply {First Second : Type} (first : Parse First) (second : First → Parse Second)
    (state : State) : (first >>= second) state = second (first state).1 (first state).2 := rfl

theorem get_apply (state : State) : (MonadState.get : Parse State) state = (state, state) := rfl

/-- The number of single tokens in a list when doubled math shifts are split. -/
def weight (tokens : List Token) : Nat :=
  tokens.foldr (fun token total => (if token.kind = .mathShift true then 2 else 1) + total) 0

@[simp] theorem weight_nil : weight [] = 0 := rfl

@[simp] theorem weight_cons (token : Token) (rest : List Token) :
    weight (token :: rest) = (if token.kind = .mathShift true then 2 else 1) + weight rest := rfl

/-- A step leaves the tokens ahead as they are. -/
structure Keeps {Result : Type} (parse : Parse Result) : Prop where
  rest_eq : ∀ state, (parse state).2.rest = state.rest

/-- A step changes nothing but the reports. -/
structure Remarks (parse : Parse Unit) : Prop where
  unchanged : ∀ state, ∃ diagnostics nestingReported,
    (parse state).2 = { state with diagnostics, nestingReported }

/-- A step leaves no more to take than it finds. -/
structure Shrinks {Result : Type} (parse : Parse Result) : Prop where
  weight_le : ∀ state, weight (parse state).2.rest ≤ weight state.rest

/-- A step takes at least one token if there is one. -/
structure Advances {Result : Type} (parse : Parse Result) : Prop extends Shrinks parse where
  weight_lt : ∀ state, state.rest ≠ [] → weight (parse state).2.rest < weight state.rest

namespace Keeps

variable {First Second : Type}

theorem pure (result : First) : Keeps (Pure.pure result) :=
  ⟨fun _ => rfl⟩

/-- Steps that keep the tokens do so one after another. -/
theorem bind {first : Parse First} {second : First → Parse Second} (hfirst : Keeps first)
    (hsecond : ∀ result, Keeps (second result)) : Keeps (first >>= second) :=
  ⟨fun state => ((hsecond _).rest_eq _).trans (hfirst.rest_eq state)⟩

theorem get : Keeps (MonadState.get : Parse State) :=
  ⟨fun _ => rfl⟩

/-- A step that leaves the tokens ahead as they are leaves no more of them. -/
theorem shrinks {parse : Parse First} (keeps : Keeps parse) : Shrinks parse :=
  ⟨fun state => Nat.le_of_eq (congrArg weight (keeps.rest_eq state))⟩

end Keeps

/-- A remark keeps the tokens. -/
theorem Remarks.keeps {parse : Parse Unit} (remarks : Remarks parse) : Keeps parse := by
  constructor
  intro state
  obtain ⟨diagnostics, nestingReported, same⟩ := remarks.unchanged state
  rw [same]

namespace Shrinks

variable {First Second : Type}

theorem pure (result : First) : Shrinks (Pure.pure result) :=
  (Keeps.pure result).shrinks

/-- Steps that leave no more tokens do so one after another. -/
theorem bind {first : Parse First} {second : First → Parse Second} (hfirst : Shrinks first)
    (hsecond : ∀ result, Shrinks (second result)) : Shrinks (first >>= second) :=
  ⟨fun state => Nat.le_trans ((hsecond _).weight_le _) (hfirst.weight_le state)⟩

theorem get : Shrinks (MonadState.get : Parse State) :=
  Keeps.get.shrinks

end Shrinks

namespace Advances

variable {First Second : Type}

/-- A step that takes a token, and then one that leaves no more, take a token. -/
theorem bind {first : Parse First} {second : First → Parse Second} (hfirst : Advances first)
    (hsecond : ∀ result, Shrinks (second result)) : Advances (first >>= second) where
  toShrinks := hfirst.toShrinks.bind hsecond
  weight_lt state ahead :=
    Nat.lt_of_le_of_lt ((hsecond _).weight_le _) (hfirst.weight_lt state ahead)

/-- A step that keeps the tokens, and then one that takes a token, take a token. -/
theorem after {first : Parse First} {second : First → Parse Second} (hfirst : Keeps first)
    (hsecond : ∀ result, Advances (second result)) : Advances (first >>= second) where
  toShrinks := hfirst.shrinks.bind fun result => (hsecond result).toShrinks
  weight_lt state ahead := by
    have same := hfirst.rest_eq state
    have less := (hsecond (first state).1).weight_lt (first state).2 (by rwa [same])
    rwa [same] at less

end Advances

section

variable (context : Context)

/-- The token at a distance ahead; the end of input stands behind the last one. -/
def look (distance : Nat) : Parse Token := do
  return (← get).rest.getD distance context.endOfInput

theorem keeps_look (distance : Nat) : Keeps (look context distance) :=
  ⟨fun _ => rfl⟩

/-- Looking ahead takes nothing. -/
theorem look_apply (distance : Nat) (state : State) :
    look context distance state = (state.rest.getD distance context.endOfInput, state) := (rfl)

/-- Takes the next token with its index, or the end of input. -/
def take : Parse Placed :=
  fun state =>
    match state.rest with
    | [] => (⟨state.taken.size, context.endOfInput⟩, state)
    | token :: rest =>
      (⟨state.taken.size, token⟩, { state with taken := state.taken.push token, rest := rest })

/-- Taking a token leaves fewer tokens, or none. -/
theorem advances_take : Advances (take context) where
  weight_le state := by
    unfold take
    split
    · exact Nat.le_refl _
    · rename_i token rest ahead
      simp only [ahead, weight_cons]
      omega
  weight_lt state ahead := by
    unfold take
    split
    · contradiction
    · rename_i token rest ahead
      simp only [ahead, weight_cons]
      split <;> omega

/-- Takes the next token if it satisfies a test. -/
def takeIf (test : Token → Bool) : Parse (Option Placed) := do
  if test (← look context 0) then
    return some (← take context)
  else
    return none

/-- At most one token is taken. -/
theorem shrinks_takeIf (test : Token → Bool) : Shrinks (takeIf context test) := by
  apply Shrinks.bind (keeps_look context 0).shrinks
  intro token
  split
  · exact .bind (advances_take context).toShrinks fun _ => .pure _
  · exact .pure _

/-- The span from a token taken to the last token taken. -/
def spanFrom (start : Position) : Parse Span := do
  let last := ((← get).taken.back?).getD context.endOfInput
  return ⟨start, last.span.stop, context.fileId⟩

theorem keeps_spanFrom (start : Position) : Keeps (spanFrom context start) :=
  ⟨fun _ => rfl⟩

/-- The number of the next node. -/
def newId : Parse NodeId :=
  modifyGet fun state => (state.created, { state with created := state.created + 1 })

theorem keeps_newId : Keeps newId :=
  ⟨fun _ => rfl⟩

/-- Leaves a report, on a node if one is given. -/
def report (problem : Problem) (span : Span) (node : Option NodeId := none) : Parse Unit :=
  modify fun state =>
    { state with diagnostics := state.diagnostics.push (problem.reportAt span node) }

theorem remarks_report (problem : Problem) (span : Span) (node : Option NodeId) :
    Remarks (report problem span node) :=
  ⟨fun _ => ⟨_, _, rfl⟩⟩

/-- Reports a problem of a node that is not finished. -/
def reportUnless (finished : Bool) (problem : Problem) (span : Span) (node : NodeId) :
    Parse Unit :=
  if finished then pure () else report problem span node

theorem remarks_reportUnless (finished : Bool) (problem : Problem) (span : Span)
    (node : NodeId) : Remarks (reportUnless finished problem span node) := by
  unfold reportUnless
  split
  · exact ⟨fun _ => ⟨_, _, rfl⟩⟩
  · exact remarks_report ..

/-- Reports once per document that content lies too deep. -/
def reportNesting (span : Span) (node : Option NodeId := none) : Parse Unit :=
  modify fun state =>
    if state.nestingReported then state
    else { state with
      nestingReported := true
      diagnostics :=
        state.diagnostics.push ((Problem.nestingTooDeep maxNesting).reportAt span node) }

/-- A level that is too deep is reported once and changes nothing else. -/
theorem remarks_reportNesting (span : Span) (node : Option NodeId) :
    Remarks (reportNesting span node) := by
  constructor
  intro state
  change ∃ diagnostics nestingReported, (if state.nestingReported then state else _) = _
  split
  · exact ⟨_, _, rfl⟩
  · exact ⟨_, _, rfl⟩

/-- The next token as a leaf. -/
def leaf : Parse Node := do
  let token ← take context
  return .leaf (← newId) token

theorem advances_leaf : Advances (leaf context) :=
  (advances_take context).bind fun _ => .bind (keeps_newId).shrinks fun _ => .pure _

/-- A number of tokens as leaves. -/
def leaves : Nat → Parse (List Node)
  | 0 => return []
  | count + 1 => do
    let first ← leaf context
    return first :: (← leaves count)

theorem shrinks_leaves (count : Nat) : Shrinks (leaves context count) := by
  induction count with
  | zero => exact .pure _
  | succ count ih =>
    exact .bind (advances_leaf context).toShrinks fun _ => .bind ih fun _ => .pure _

/-- As many tokens as a count of those ahead tells, as leaves. -/
def leavesAhead (count : List Token → Nat) : Parse (List Node) := do
  leaves context (count (← get).rest)

/-- Leaves take tokens from the front alone. -/
theorem shrinks_leavesAhead (count : List Token → Nat) : Shrinks (leavesAhead context count) :=
  .bind .get fun _ => shrinks_leaves ..

end

end Parser

end TexSource
