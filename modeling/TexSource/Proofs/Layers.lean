import Mathlib.Data.List.Induction
import TexSource.Layered

/-!
# How layers of bindings change

A sequence of changes leads from one stack of layers to another (`Layered.Evolves`). As long as it
closes no layer down to some depth, it leaves the layers below that depth as they are, but for
global assignments; and a key has the value of the last assignment that is still seen
(`Layered.seen?`): a global one, or a local one whose layer has not been closed since.
-/

namespace TexSource

namespace Bindings

variable {Key Value : Type} [DecidableEq Key] {bindings : Bindings Key Value} {key other : Key}

theorem get?_insert_self (value : Value) : (bindings.insert key value).get? key = some value := by
  simp [get?, insert]

theorem get?_erase_self : (bindings.erase key).get? key = none := by
  simp [get?, erase]

/-- Erasing a key does not change what others are bound to. -/
theorem get?_erase_of_ne (different : key ≠ other) :
    (bindings.erase key).get? other = bindings.get? other := by
  unfold get? erase
  rw [List.find?_filter]
  congr 2
  funext binding
  by_cases same : binding.1 = other
  · simp [same, different.symm]
  · simp [same]

/-- Binding a key does not change what others are bound to. -/
theorem get?_insert_of_ne (value : Value) (different : key ≠ other) :
    (bindings.insert key value).get? other = bindings.get? other := by
  have erased : (bindings.erase key).get? other = bindings.get? other := get?_erase_of_ne different
  rw [← erased]
  unfold get? insert
  rw [List.find?_cons_of_neg (by simpa using different)]

end Bindings

namespace Layered

variable {Key Value : Type} {layered first last : Layered Key Value} {key other : Key}
  {value : Value}

/-- The layer at a level above the bottom one. -/
def layer (layered : Layered Key Value) (level : Nat) : Bindings Key Value :=
  (layered.layers.reverse[level]?).getD []

/-- From the outside in, the layers start with the bottom. -/
theorem layers_reverse (layered : Layered Key Value) :
    layered.layers.reverse = layered.bottom :: layered.inner.reverse := by
  simp [layers]

/-- A layer does not depend on the innermost one above it. -/
theorem layer_cons {bottom innermost : Bindings Key Value} {outer : List (Bindings Key Value)}
    {level : Nat} (below : level ≤ outer.length) :
    layer ⟨bottom, innermost :: outer⟩ level = layer ⟨bottom, outer⟩ level := by
  unfold layer
  have inside : level < (bottom :: outer.reverse).length := by simpa using Nat.lt_succ_of_le below
  rw [layers_reverse, layers_reverse, List.reverse_cons, ← List.cons_append,
    List.getElem?_append_left inside]

/-- Opening a layer keeps those below. -/
theorem layer_push {level : Nat} (below : level ≤ layered.depth) :
    layered.push.layer level = layered.layer level :=
  layer_cons below

/-- Closing the innermost layer keeps those below. -/
theorem layer_pop {level : Nat} (below : level < layered.depth) :
    layered.pop.layer level = layered.layer level := by
  obtain ⟨bottom, inner⟩ := layered
  cases inner with
  | nil => exact absurd below (Nat.not_lt_zero _)
  | cons innermost outer => exact (layer_cons (Nat.le_of_lt_succ below)).symm

/-- Layers can be closed down to a depth. -/
theorem depth_popTo {base : Nat} (above : base ≤ layered.depth) :
    (layered.popTo base).depth = base := by
  simp only [depth, popTo, List.length_drop] at above ⊢
  omega

variable [DecidableEq Key]

/-- A local assignment keeps the layers below. -/
theorem layer_assignLocally {level : Nat} (below : level < layered.depth) :
    (layered.assignLocally key value).layer level = layered.layer level := by
  obtain ⟨bottom, inner⟩ := layered
  cases inner with
  | nil => exact absurd below (Nat.not_lt_zero _)
  | cons innermost outer =>
    have below := Nat.le_of_lt_succ below
    exact (layer_cons below).trans (layer_cons below).symm

/-- A global assignment binds its key in the outermost layer only. -/
theorem get?_layer_assignGlobally_self (level : Nat) :
    ((layered.assignGlobally key value).layer level).get? key =
      if level = 0 then some value else none := by
  unfold layer
  rw [layers_reverse]
  cases level with
  | zero => simp [assignGlobally, Bindings.get?_insert_self]
  | succ level =>
    simp only [assignGlobally, List.getElem?_cons_succ, ← List.map_reverse, List.getElem?_map]
    cases layered.inner.reverse[level]? with
    | none => rfl
    | some layer => simp [Bindings.get?_erase_self]

/-- A global assignment changes no other key in any layer. -/
theorem get?_layer_assignGlobally_of_ne (different : key ≠ other) (level : Nat) :
    ((layered.assignGlobally key value).layer level).get? other =
      (layered.layer level).get? other := by
  unfold layer
  rw [layers_reverse, layers_reverse]
  cases level with
  | zero => simp [assignGlobally, Bindings.get?_insert_of_ne value different]
  | succ level =>
    simp only [assignGlobally, List.getElem?_cons_succ, ← List.map_reverse, List.getElem?_map]
    cases layered.inner.reverse[level]? with
    | none => rfl
    | some layer => simp [Bindings.get?_erase_of_ne different]

theorem depth_assignLocally : (layered.assignLocally key value).depth = layered.depth := by
  obtain ⟨bottom, _ | ⟨innermost, outer⟩⟩ := layered <;> rfl

theorem depth_assignGlobally : (layered.assignGlobally key value).depth = layered.depth := by
  simp [assignGlobally, depth]

/-- A change to a stack of layers. -/
inductive Change (Key Value : Type) where
  | opened
  | closed
  | assignedLocally (key : Key) (value : Value)
  | assignedGlobally (key : Key) (value : Value)

/-- A sequence of changes leads from one stack of layers to another and closes no layer down to a
depth. -/
inductive Evolves (base : Nat) (first : Layered Key Value) :
    List (Change Key Value) → Layered Key Value → Prop where
  | start (above : base ≤ first.depth) : Evolves base first [] first
  | opened {changes : List (Change Key Value)} {last : Layered Key Value}
      (before : Evolves base first changes last) :
      Evolves base first (changes ++ [.opened]) last.push
  | closed {changes : List (Change Key Value)} {last : Layered Key Value}
      (before : Evolves base first changes last) (above : base < last.depth) :
      Evolves base first (changes ++ [.closed]) last.pop
  | assignedLocally {changes : List (Change Key Value)} {last : Layered Key Value}
      (before : Evolves base first changes last) (key : Key) (value : Value) :
      Evolves base first (changes ++ [.assignedLocally key value]) (last.assignLocally key value)
  | assignedGlobally {changes : List (Change Key Value)} {last : Layered Key Value}
      (before : Evolves base first changes last) (key : Key) (value : Value) :
      Evolves base first (changes ++ [.assignedGlobally key value]) (last.assignGlobally key value)

/-- The value that the latest global assignment gives to a key (the latest change first). -/
def globally? (key : Key) : (latest : List (Change Key Value)) → Option Value
  | [] => none
  | .assignedGlobally assigned value :: earlier =>
    if assigned = key then some value else globally? key earlier
  | _ :: earlier => globally? key earlier

/-- The value that the latest assignment still seen gives to a key (the latest change first), where
a number of layers open behind these changes has been closed since. -/
def seen? (key : Key) : (closed : Nat) → (latest : List (Change Key Value)) → Option Value
  | _, [] => none
  | closed, .opened :: earlier => seen? key (closed - 1) earlier
  | closed, .closed :: earlier => seen? key (closed + 1) earlier
  | closed, .assignedLocally assigned value :: earlier =>
    if assigned = key ∧ closed = 0 then some value else seen? key closed earlier
  | closed, .assignedGlobally assigned value :: earlier =>
    if assigned = key then some value else seen? key closed earlier

/-- A lookup that passes over a number of the innermost layers. -/
def lookupBelow (layered : Layered Key Value) (closed : Nat) (key : Key) : Option Value :=
  (layered.layers.drop closed).findSome? fun layer => layer.get? key

/-- Below a new layer all is as before. -/
theorem lookupBelow_push_succ (closed : Nat) :
    layered.push.lookupBelow (closed + 1) key = layered.lookupBelow closed key :=
  rfl

/-- Closing a layer shows what is below it. -/
theorem lookupBelow_pop (inner : 0 < layered.depth) (closed : Nat) :
    layered.pop.lookupBelow closed key = layered.lookupBelow (closed + 1) key := by
  obtain ⟨bottom, _ | ⟨innermost, outer⟩⟩ := layered
  · exact absurd inner (Nat.not_lt_zero _)
  · rfl

/-- A local assignment is seen at once. -/
theorem lookupBelow_assignLocally_zero :
    (layered.assignLocally key value).lookupBelow 0 key = some value := by
  obtain ⟨bottom, _ | ⟨innermost, outer⟩⟩ := layered <;>
    simp [lookupBelow, layers, assignLocally, Bindings.get?_insert_self]

/-- A local assignment is not seen below its layer. -/
theorem lookupBelow_assignLocally_succ {closed : Nat} (inner : closed < layered.depth) :
    (layered.assignLocally key value).lookupBelow (closed + 1) other =
      layered.lookupBelow (closed + 1) other := by
  obtain ⟨bottom, _ | ⟨innermost, outer⟩⟩ := layered
  · exact absurd inner (Nat.not_lt_zero _)
  · rfl

/-- A local assignment is not seen under other keys. -/
theorem lookupBelow_assignLocally_of_ne (different : key ≠ other) (closed : Nat) :
    (layered.assignLocally key value).lookupBelow closed other =
      layered.lookupBelow closed other := by
  obtain ⟨bottom, _ | ⟨innermost, outer⟩⟩ := layered <;> cases closed <;>
    simp [lookupBelow, layers, assignLocally, List.findSome?_cons,
      Bindings.get?_insert_of_ne value different]

/-- A global assignment is seen in every layer. -/
theorem lookupBelow_assignGlobally_self {closed : Nat} (inner : closed ≤ layered.depth) :
    (layered.assignGlobally key value).lookupBelow closed key = some value := by
  have hidden : ((layered.inner.map fun layer => layer.erase key).drop closed).findSome?
      (fun layer => layer.get? key) = none := by
    rw [← List.map_drop, List.findSome?_map]
    simp [Bindings.get?_erase_self]
  have within : closed ≤ (layered.inner.map fun layer => layer.erase key).length := by
    rwa [List.length_map]
  unfold lookupBelow
  rw [assignGlobally, layers, List.drop_append_of_le_length within, List.findSome?_append, hidden]
  simp [Bindings.get?_insert_self]

/-- A global assignment is not seen under other keys. -/
theorem lookupBelow_assignGlobally_of_ne (different : key ≠ other) (closed : Nat) :
    (layered.assignGlobally key value).lookupBelow closed other =
      layered.lookupBelow closed other := by
  unfold lookupBelow
  rw [assignGlobally, layers, layers, List.drop_append, List.drop_append, List.findSome?_append,
    List.findSome?_append, ← List.map_drop, List.findSome?_map]
  congr 1
  · congr 1
    funext layer
    exact Bindings.get?_erase_of_ne different
  · rw [List.length_map]
    cases closed - layered.inner.length <;> simp [Bindings.get?_insert_of_ne value different]

namespace Evolves

variable {base : Nat} {changes : List (Change Key Value)}

/-- Changes go on above the base. -/
theorem depth_le (evolves : Evolves base first changes last) : base ≤ last.depth := by
  induction evolves with
  | start above => exact above
  | opened _ ih => exact Nat.le_succ_of_le ih
  | closed _ above =>
    simp only [depth, pop, List.length_tail] at above ⊢
    omega
  | assignedLocally _ key value ih => rwa [depth_assignLocally]
  | assignedGlobally _ key value ih => rwa [depth_assignGlobally]

/-- Changes one after another evolve from the first to the last. -/
theorem trans {middle : Layered Key Value} {later : List (Change Key Value)} {above : Nat}
    (before : Evolves base first changes middle) (deeper : base ≤ above)
    (after : Evolves above middle later last) : Evolves base first (changes ++ later) last := by
  induction after with
  | start => simpa using before
  | opened _ ih => simpa using ih.opened
  | closed _ above ih => simpa using ih.closed (Nat.lt_of_le_of_lt deeper above)
  | assignedLocally _ key value ih => simpa using ih.assignedLocally key value
  | assignedGlobally _ key value ih => simpa using ih.assignedGlobally key value

/-- **Below the depth that is kept, only global assignments change a layer.** A key that is
assigned globally is bound in the bottom layer, to the last value that it was given so. -/
theorem get?_layer (evolves : Evolves base first changes last) {level : Nat} (below : level < base)
    (key : Key) : (last.layer level).get? key =
      match globally? key changes.reverse with
      | none => (first.layer level).get? key
      | some value => if level = 0 then some value else none := by
  induction evolves with
  | start => rfl
  | opened before ih =>
    rw [layer_push (by have := before.depth_le; omega), ih]
    simp [globally?]
  | closed before above ih =>
    rw [layer_pop (by omega), ih]
    simp [globally?]
  | assignedLocally before assigned value ih =>
    rw [layer_assignLocally (by have := before.depth_le; omega), ih]
    simp [globally?]
  | assignedGlobally before assigned value ih =>
    by_cases same : assigned = key
    · subst same
      rw [get?_layer_assignGlobally_self]
      simp [globally?]
    · rw [get?_layer_assignGlobally_of_ne same, ih]
      simp [globally?, same]

/-- What is seen behind changes, passing over layers that were opened by them. -/
theorem lookupBelow (evolves : Evolves first.depth first changes last) {closed : Nat}
    (within : first.depth + closed ≤ last.depth) (key : Key) :
    last.lookupBelow closed key = (seen? key closed changes.reverse).or (first.lookup key) := by
  induction evolves generalizing closed with
  | start =>
    obtain rfl : closed = 0 := by omega
    rfl
  | opened before ih =>
    rw [List.reverse_concat, seen?]
    cases closed with
    | zero => exact @ih 0 before.depth_le
    | succ closed => exact ih (Nat.le_of_succ_le_succ within)
  | @closed changes last before above ih =>
    have deep : last.depth = last.pop.depth + 1 := by
      simp only [depth, pop, List.length_tail] at above ⊢
      omega
    rw [List.reverse_concat, seen?, lookupBelow_pop (by omega), ih (by omega)]
  | @assignedLocally changes last before assigned value ih =>
    rw [depth_assignLocally] at within
    rw [List.reverse_concat, seen?]
    by_cases equal : assigned = key
    · subst equal
      cases closed with
      | zero => simp [lookupBelow_assignLocally_zero]
      | succ closed =>
        rw [lookupBelow_assignLocally_succ (by omega), ih within, if_neg (by simp)]
    · rw [lookupBelow_assignLocally_of_ne equal, ih within, if_neg (by simp [equal])]
  | @assignedGlobally changes last before assigned value ih =>
    rw [depth_assignGlobally] at within
    rw [List.reverse_concat, seen?]
    by_cases equal : assigned = key
    · subst equal
      rw [lookupBelow_assignGlobally_self (by omega), if_pos rfl, Option.some_or]
    · rw [lookupBelow_assignGlobally_of_ne equal, ih within, if_neg equal]

/-- **A key has the value of the last assignment that is still seen**, or else the one it had. -/
theorem lookup (evolves : Evolves first.depth first changes last) (key : Key) :
    last.lookup key = (seen? key 0 changes.reverse).or (first.lookup key) :=
  @lookupBelow _ _ _ _ _ _ evolves 0 evolves.depth_le key

/-- Passing over all layers that are not kept, only global assignments are seen. -/
theorem lookupBelow_outside (evolves : Evolves base first changes last) {closed : Nat}
    (outside : last.depth < base + closed) (within : closed ≤ last.depth) (key : Key) :
    last.lookupBelow closed key = (globally? key changes.reverse).or
      (first.lookupBelow (first.depth + closed - last.depth) key) := by
  induction evolves generalizing closed with
  | start => rw [Nat.add_sub_cancel_left]; rfl
  | @opened changes last before ih =>
    have deep : last.push.depth = last.depth + 1 := rfl
    have above := before.depth_le
    obtain ⟨closed, rfl⟩ : ∃ fewer, closed = fewer + 1 := ⟨closed - 1, by omega⟩
    rw [List.reverse_concat, globally?, lookupBelow_push_succ, ih (by omega) (by omega), deep,
      ← Nat.add_assoc, Nat.add_sub_add_right]
    exact nofun
  | @closed changes last before above ih =>
    have deep : last.depth = last.pop.depth + 1 := by
      simp only [depth, pop, List.length_tail] at above ⊢
      omega
    rw [List.reverse_concat, globally?, lookupBelow_pop (by omega), ih (by omega) (by omega), deep,
      ← Nat.add_assoc, Nat.add_sub_add_right]
    exact nofun
  | @assignedLocally changes last before assigned value ih =>
    rw [depth_assignLocally] at outside within ⊢
    have above := before.depth_le
    obtain ⟨closed, rfl⟩ : ∃ fewer, closed = fewer + 1 := ⟨closed - 1, by omega⟩
    rw [List.reverse_concat, globally?, lookupBelow_assignLocally_succ within, ih outside within]
    exact nofun
  | @assignedGlobally changes last before assigned value ih =>
    rw [depth_assignGlobally] at outside within ⊢
    rw [List.reverse_concat, globally?]
    by_cases equal : assigned = key
    · subst equal
      rw [lookupBelow_assignGlobally_self within, if_pos rfl, Option.some_or]
    · rw [lookupBelow_assignGlobally_of_ne equal, ih outside within, if_neg equal]

/-- **Behind a group, nothing is seen of the local assignments made in it.** -/
theorem lookup_pop (group : Evolves (first.depth + 1) first.push changes last)
    (closes : last.depth = first.depth + 1) (key : Key) :
    last.pop.lookup key = (globally? key changes.reverse).or (first.lookup key) := by
  have inner : first.push.depth = first.depth + 1 := rfl
  have passed : last.pop.lookup key = last.lookupBelow 1 key := lookupBelow_pop (by omega) 0
  rw [passed, group.lookupBelow_outside (by omega) (by omega), inner, closes,
    Nat.add_sub_cancel_left]
  rfl

/-- Layers above the base may be closed. -/
theorem drop (evolves : Evolves base first changes last) {count : Nat}
    (above : base + count ≤ last.depth) :
    Evolves base first (changes ++ List.replicate count .closed)
      { last with inner := last.inner.drop count } := by
  induction count with
  | zero => simpa using evolves
  | succ count ih =>
    have deep : base < depth { last with inner := last.inner.drop count } := by
      simp only [depth, List.length_drop] at above ⊢
      omega
    have closed := (ih (by omega)).closed deep
    rw [List.append_assoc, ← List.replicate_succ'] at closed
    simpa [pop] using closed

/-- Layers are closed down to a depth one by one. -/
theorem popTo (evolves : Evolves base first changes last) :
    Evolves base first (changes ++ List.replicate (last.depth - base) .closed) (last.popTo base) :=
  evolves.drop (by have := evolves.depth_le; omega)

end Evolves

/-- What a stack of layers keeps through changes that close none of its layers. Below its innermost
layer only global assignments count, the last one for each key; and a key has the value of the last
assignment that is still seen. -/
structure Keeps (first : Layered Key Value) (changes : List (Change Key Value))
    (last : Layered Key Value) : Prop where
  evolves : Evolves first.depth first changes last
  depth : first.depth ≤ last.depth
  below : ∀ level < first.depth, ∀ key, (last.layer level).get? key =
    match globally? key changes.reverse with
    | none => (first.layer level).get? key
    | some value => if level = 0 then some value else none
  lookup : ∀ key, last.lookup key = (seen? key 0 changes.reverse).or (first.lookup key)

/-- What evolves above a depth keeps the layers below it. -/
theorem Evolves.keeps {changes : List (Change Key Value)}
    (evolves : Evolves first.depth first changes last) : Keeps first changes last :=
  ⟨evolves, evolves.depth_le, fun _ below key => evolves.get?_layer below key, evolves.lookup⟩

end Layered

end TexSource
