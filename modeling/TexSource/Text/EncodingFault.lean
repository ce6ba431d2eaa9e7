import TexSource.Text.Encoding

/-!
# Faults of an encoding

Where strictness is wanted, bytes that are not UTF-8 are refused with the place and the
cause of the first fault: a byte that starts no sequence, a byte that does not continue
the sequence before it, or the end of the bytes within a sequence.
-/

namespace TexSource

/-- Why bytes stop being well formed. -/
inductive EncodingCause where
  | invalidStart
  | invalidContinuation
  | unexpectedEnd
deriving DecidableEq, Repr

/-- The first fault in a sequence of bytes: the offset and the bytes that are refused. -/
structure EncodingFault where
  offset : Nat
  bytes : List UInt8
  cause : EncodingCause
deriving DecidableEq, Repr

namespace EncodingFault

/-- The bounds of the bytes that continue a sequence after its first byte, absent for a
byte that starts none. -/
def continuations? (first : Nat) : Option (List (Nat × Nat)) :=
  let any : Nat × Nat := (0x80, 0xBF)
  if first < 0x80 then some []
  else if first < 0xC2 then none
  else if first < 0xE0 then some [any]
  else if first = 0xE0 then some [(0xA0, 0xBF), any]
  else if first = 0xED then some [(0x80, 0x9F), any]
  else if first < 0xF0 then some [any, any]
  else if first = 0xF0 then some [(0x90, 0xBF), any, any]
  else if first < 0xF4 then some [any, any, any]
  else if first = 0xF4 then some [(0x80, 0x8F), any, any]
  else none

/-- The fault in the rest of a sequence behind the bytes already accepted (the latest
first), if there is one. -/
def inSequence? (offset : Nat) (accepted : List UInt8) :
    List (Nat × Nat) → List UInt8 → Option EncodingFault
  | [], _ => none
  | _ :: _, [] => some ⟨offset, accepted.reverse, .unexpectedEnd⟩
  | (least, greatest) :: bounds, byte :: rest =>
    if least ≤ byte.toNat && byte.toNat ≤ greatest then
      inSequence? offset (byte :: accepted) bounds rest
    else some ⟨offset, accepted.reverse, .invalidContinuation⟩

/-- The first fault in the bytes from an offset on, if there is one. -/
def findFrom (offset : Nat) : List UInt8 → Option EncodingFault
  | [] => none
  | first :: rest =>
    match continuations? first.toNat with
    | none => some ⟨offset, [first], .invalidStart⟩
    | some bounds =>
      match inSequence? offset [first] bounds rest with
      | some fault => some fault
      | none => findFrom (offset + 1 + bounds.length) (rest.drop bounds.length)
termination_by bytes => bytes.length
decreasing_by
  simp only [List.length_drop, List.length_cons]
  omega

end EncodingFault

/-- The first fault in bytes that should be UTF-8, if there is one. -/
def encodingFault? (bytes : List UInt8) : Option EncodingFault :=
  EncodingFault.findFrom 0 bytes

end TexSource
