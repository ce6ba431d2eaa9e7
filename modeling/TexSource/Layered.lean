/-!
# Layered bindings

A stack of layers of bindings, as groups nest. A lookup searches the layers from
the innermost outwards. A local assignment binds in the innermost layer and is
forgotten with it; a global one binds in the bottom layer and removes every
binding of the same key that would hide it. The bottom layer is never popped.
-/

namespace TexSource

/-- Keys with their values; each key is bound at most once. -/
abbrev Bindings (Key Value : Type) := List (Key × Value)

namespace Bindings

variable {Key Value : Type} [DecidableEq Key]

/-- Bindings without those of a key. -/
def erase (bindings : Bindings Key Value) (key : Key) : Bindings Key Value :=
  bindings.filter fun binding => binding.1 ≠ key

/-- Binds a key, in place of what it was bound to. -/
def insert (bindings : Bindings Key Value) (key : Key) (value : Value) : Bindings Key Value :=
  (key, value) :: erase bindings key

/-- What a key is bound to, if it is bound. -/
def get? (bindings : Bindings Key Value) (key : Key) : Option Value :=
  (bindings.find? fun binding => binding.1 = key).map Prod.snd

end Bindings

/-- A bottom layer of bindings under a stack of inner layers, innermost first. -/
structure Layered (Key Value : Type) where
  bottom : Bindings Key Value
  inner : List (Bindings Key Value)

namespace Layered

variable {Key Value : Type} [DecidableEq Key]

/-- Bindings outside of all groups. -/
def ofBindings (bindings : Bindings Key Value) : Layered Key Value :=
  ⟨bindings, []⟩

/-- The number of groups that are open. -/
def depth (layered : Layered Key Value) : Nat :=
  layered.inner.length

/-- The layers, the innermost one first. -/
def layers (layered : Layered Key Value) : List (Bindings Key Value) :=
  layered.inner ++ [layered.bottom]

/-- What a key is bound to in the innermost layer that binds it. -/
def lookup (layered : Layered Key Value) (key : Key) : Option Value :=
  layered.layers.findSome? fun layer => layer.get? key

/-- Opens a group. -/
def push (layered : Layered Key Value) : Layered Key Value :=
  { layered with inner := [] :: layered.inner }

/-- Forgets the innermost layer, unless only the bottom one is left. -/
def pop (layered : Layered Key Value) : Layered Key Value :=
  { layered with inner := layered.inner.tail }

/-- Closes groups until no more than a number of them are open. -/
def popTo (depth : Nat) (layered : Layered Key Value) : Layered Key Value :=
  { layered with inner := layered.inner.drop (layered.inner.length - depth) }

/-- Binds a key in the innermost layer. -/
def assignLocally (layered : Layered Key Value) (key : Key) (value : Value) :
    Layered Key Value :=
  match layered.inner with
  | [] => { layered with bottom := layered.bottom.insert key value }
  | layer :: outer => { layered with inner := layer.insert key value :: outer }

/-- Binds a key in the bottom layer and unbinds it in all others. -/
def assignGlobally (layered : Layered Key Value) (key : Key) (value : Value) :
    Layered Key Value :=
  ⟨layered.bottom.insert key value, layered.inner.map fun layer => layer.erase key⟩

/-- All bindings that are in force, in one layer. -/
def flatten (layered : Layered Key Value) : Layered Key Value :=
  ofBindings <| layered.layers.foldr
    (fun layer visible =>
      layer.foldr (fun binding below => below.insert binding.1 binding.2) visible)
    []

end Layered

end TexSource
