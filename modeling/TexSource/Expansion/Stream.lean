import TexSource.Token

/-!
# Token streams

The tokens that an expansion has still to read. Replacements of macros are put in
front, each followed by a mark; while a replacement is read its macro counts as
called, and reading the mark ends the call. `Stream.readUntil` is the one loop over
a stream: every scan of a group, of an argument or of blanks is an instance.
-/

namespace TexSource

namespace Expansion

/-- A token, or the end of a macro's replacement. -/
inductive Item where
  | token (token : Token)
  | endOfCall (name : Text)
deriving DecidableEq, Repr

/-- What remains to be read, and the macros whose replacements are being read (the
innermost first). -/
structure Stream where
  items : List Item
  calls : List Text
deriving DecidableEq, Repr

/-- The outcome of reading tokens until one stops the scan. -/
structure Reading (Memory : Type) where
  before : List Token
  stop : Option Token
  memory : Memory
  stream : Stream

namespace Stream

/-- A stream of tokens without open calls. -/
def ofTokens (tokens : List Token) : Stream :=
  ⟨tokens.map Item.token, []⟩

/-- Puts tokens in front of a stream. -/
def push (stream : Stream) (tokens : List Token) : Stream :=
  { stream with items := tokens.map Item.token ++ stream.items }

/-- Puts the replacement of a macro in front of a stream. -/
def pushCall (stream : Stream) (name : Text) (replacement : List Token) : Stream :=
  ⟨replacement.map Item.token ++ .endOfCall name :: stream.items, name :: stream.calls⟩

/-- Reads items until a token stops the scan. The test sees each token together with
what the scan remembers of the tokens before. -/
def readItems {Memory : Type} (test : Memory → Token → Memory × Bool) :
    Memory → List Item → List Text → Reading Memory
  | memory, [], calls => ⟨[], none, memory, ⟨[], calls⟩⟩
  | memory, .endOfCall _ :: rest, calls => readItems test memory rest calls.tail
  | memory, .token token :: rest, calls =>
    let (remembered, stops) := test memory token
    if stops then
      ⟨[], some token, remembered, ⟨rest, calls⟩⟩
    else
      let later := readItems test remembered rest calls
      { later with before := token :: later.before }

/-- Reads tokens up to the first one that passes a test, which may remember what it has seen. -/
def readUntil {Memory : Type} (test : Memory → Token → Memory × Bool) (memory : Memory)
    (stream : Stream) : Reading Memory :=
  readItems test memory stream.items stream.calls

/-- Reads the next token, ending the calls whose replacements are finished. -/
def next (stream : Stream) : Option Token × Stream :=
  let reading := stream.readUntil (fun _ _ => ((), true)) ()
  (reading.stop, reading.stream)

/-- What is read and what is left is no more than there was. -/
theorem length_readItems {Memory : Type} (test : Memory → Token → Memory × Bool)
    (memory : Memory) (items : List Item) (calls : List Text) :
    (readItems test memory items calls).stream.items.length +
        (readItems test memory items calls).before.length +
        (readItems test memory items calls).stop.toList.length ≤ items.length := by
  fun_induction readItems test memory items calls with
  | case1 => simp
  | case2 memory rest calls name ih => simp only [List.length_cons]; omega
  | case3 => simp
  | case4 =>
    rename_i later ih
    have bound : later.stream.items.length + later.before.length + later.stop.toList.length ≤ _ :=
      ih
    simp only [List.length_cons]
    omega

/-- What is read and what is left is no more than there was. -/
theorem length_readUntil {Memory : Type} (test : Memory → Token → Memory × Bool)
    (memory : Memory) (stream : Stream) :
    (stream.readUntil test memory).stream.items.length +
        (stream.readUntil test memory).before.length +
        (stream.readUntil test memory).stop.toList.length ≤ stream.items.length :=
  length_readItems test memory stream.items stream.calls

/-- Reading a token makes a stream shorter. -/
theorem length_next_lt {stream : Stream} {token : Token} (found : stream.next.1 = some token) :
    stream.next.2.items.length < stream.items.length := by
  have bound := length_readUntil (fun (_ : Unit) (_ : Token) => ((), true)) () stream
  simp only [next] at found ⊢
  rw [found] at bound
  simp only [Option.toList_some, List.length_cons, List.length_nil] at bound
  omega

/-- Reading opens no calls. -/
theorem calls_readItems {Memory : Type} (test : Memory → Token → Memory × Bool)
    (memory : Memory) (items : List Item) (calls : List Text) :
    (readItems test memory items calls).stream.calls.length ≤ calls.length := by
  fun_induction readItems test memory items calls with
  | case1 => exact Nat.le_refl _
  | case2 memory rest calls name ih => exact Nat.le_trans ih (by simp)
  | case3 => exact Nat.le_refl _
  | case4 => assumption

/-- Reading only ends calls. -/
theorem calls_readUntil {Memory : Type} (test : Memory → Token → Memory × Bool)
    (memory : Memory) (stream : Stream) :
    (stream.readUntil test memory).stream.calls.length ≤ stream.calls.length :=
  calls_readItems test memory stream.items stream.calls

/-- Reading a token opens no calls. -/
theorem calls_next (stream : Stream) : stream.next.2.calls.length ≤ stream.calls.length :=
  calls_readUntil (fun _ _ => ((), true)) () stream

end Stream

end Expansion

end TexSource
