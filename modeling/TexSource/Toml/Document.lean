import TexSource.Toml.Draft
import TexSource.Toml.Scalar

/-!
# TOML documents

A document is a sequence of lines: assignments of values to keys, and headers that open
a table or the next table of an array. `parse` reads a document to the fields of its
outermost table, or finds the fault at which reading ends.
-/

namespace TexSource

namespace Toml

/-- What stands behind blanks. -/
def skipBlanks (input : List Char) : List Char :=
  input.dropWhile isBlank

/-- The characters behind a comment, if one starts here. -/
def skipComment (input : List Char) : Except Fault (List Char) :=
  match input with
  | '#' :: rest =>
    let (comment, rest) := rest.span (· ≠ '\n')
    if comment.all isLineCharacter then .ok rest else .error .malformed
  | _ => .ok input

/-- Whether a character may stand in a key without quotes. -/
def isKeyCharacter (character : Char) : Bool :=
  character.isAlphanum || character = '-' || character = '_'

/-- One part of a key. -/
def keyPart (input : List Char) : Except Fault (Taken Text) :=
  match input with
  | '"' :: rest => basicString false [] rest
  | '\x27' :: rest => literalString rest
  | _ =>
    let (name, rest) := input.span isKeyCharacter
    if name = [] then .error .malformed else .ok (textOf name, rest)

/-- The parts of a key, with full stops between them. Every part takes a character. -/
def keyParts : (room : Nat) → List Char → Except Fault (Taken (List Text))
  | 0, _ => .error .malformed
  | room + 1, input => do
    let (part, rest) ← keyPart input
    match skipBlanks rest with
    | '.' :: rest =>
      let (parts, rest) ← keyParts room (skipBlanks rest)
      return (part :: parts, rest)
    | rest => return ([part], rest)

/-- A key, whose parts are separated by dots. -/
def key (input : List Char) : Except Fault (Taken (List Text)) :=
  keyParts (input.length + 1) input

/-- A key and the equals sign behind it. -/
def keyOfAssignment (input : List Char) : Except Fault (Taken (List Text)) := do
  let (parts, rest) ← key input
  match rest with
  | '=' :: rest => return (parts, skipBlanks rest)
  | _ => .error .malformed

/-- The characters behind the white space and the comments of an array. Every round
takes a character. -/
def skipToItem : (room : Nat) → List Char → Except Fault (List Char)
  | 0, input => .ok input
  | room + 1, input =>
    match input.dropWhile isBlankOrNewline with
    | '#' :: rest => do skipToItem room (← skipComment ('#' :: rest))
    | rest => .ok rest

/-- What stands behind white space and comments in an array. -/
def skipInArray (input : List Char) : Except Fault (List Char) :=
  skipToItem (input.length + 1) input

mutual

/-- A value. Every other step takes a character, which bounds the steps. -/
def valueWithin : (room : Nat) → List Char → Except Fault (Taken Value)
  | 0, _ => .error .malformed
  | room + 1, input =>
    match input with
    | '[' :: rest => do
      let (items, rest) ← itemsWithin room (← skipInArray rest)
      return (.array items, rest)
    | '\x7b' :: rest => do
      match skipBlanks rest with
      | '\x7d' :: rest => return (.table [], rest)
      | rest =>
        let (fields, rest) ← fieldsWithin room [] rest
        return (.table (Draft.valuesOf fields), rest)
    | _ => scalar input

/-- The items of an array up to its closing bracket. A comma may stand behind the last
one. -/
def itemsWithin : (room : Nat) → List Char → Except Fault (Taken (List Value))
  | 0, _ => .error .malformed
  | room + 1, input =>
    match input with
    | ']' :: rest => .ok ([], rest)
    | _ => do
      let (item, rest) ← valueWithin room input
      match ← skipInArray rest with
      | ']' :: rest => return ([item], rest)
      | ',' :: rest =>
        let (items, rest) ← itemsWithin room (← skipInArray rest)
        return (item :: items, rest)
      | _ => .error .malformed

/-- The fields of a table on one line up to its closing brace, behind those already
read. No comma may stand behind the last one. -/
def fieldsWithin : (room : Nat) → Fields → List Char → Except Fault (Taken Fields)
  | 0, _, _ => .error .malformed
  | room + 1, fields, input => do
    let (parts, rest) ← keyOfAssignment input
    let (value, rest) ← valueWithin room rest
    match Fields.assign 0 parts value fields with
    | none => .error .malformed
    | some fields =>
      match skipBlanks rest with
      | '\x7d' :: rest => return (fields, rest)
      | ',' :: rest => fieldsWithin room fields (skipBlanks rest)
      | _ => .error .malformed

end

/-- A value. -/
def value (input : List Char) : Except Fault (Taken Value) :=
  valueWithin (2 * input.length + 2) input

/-- What was read so far: the fields of the outermost table, the keys of the last header
and the number of headers. -/
structure Progress where
  fields : Fields
  header : List Text
  current : Nat

namespace Progress

/-- Adds the value of an assignment to the table of the last header. -/
def assign (progress : Progress) (key : List Text) (value : Value) :
    Except Fault Progress :=
  match Fields.within (Fields.assign progress.current key value) progress.header
      progress.fields with
  | some fields => .ok { progress with fields }
  | none => .error .malformed

/-- Opens the table of a header, as one of its own or as the next one of an array. -/
def openHeader (progress : Progress) (next : Bool) (key : List Text) :
    Except Fault Progress :=
  let current := progress.current + 1
  let name := key.getLast?.getD []
  let change := if next then Fields.openNext name else Fields.openTable current name
  match Fields.within change key.dropLast progress.fields with
  | some fields => .ok ⟨fields, key, current⟩
  | none => .error .malformed

end Progress

/-- The header of a table or of an array of tables. -/
def header (progress : Progress) (input : List Char) : Except Fault (Taken Progress) := do
  match input with
  | '[' :: rest =>
    let (parts, rest) ← key (skipBlanks rest)
    let opened ← progress.openHeader true parts
    match rest with
    | ']' :: ']' :: rest => return (opened, rest)
    | _ => .error .malformed
  | _ =>
    let (parts, rest) ← key (skipBlanks input)
    let opened ← progress.openHeader false parts
    match rest with
    | ']' :: rest => return (opened, rest)
    | _ => .error .malformed

/-- A header or an assignment, if one starts here. -/
def statement (progress : Progress) (input : List Char) : Except Fault (Taken Progress) :=
  match input with
  | [] => .ok (progress, [])
  | '\n' :: _ => .ok (progress, input)
  | '#' :: _ => .ok (progress, input)
  | '[' :: rest => header progress rest
  | _ => do
    let (parts, rest) ← keyOfAssignment input
    let (value, rest) ← value rest
    let extended ← progress.assign parts value
    return (extended, rest)

/-- The lines from here on. Every line but the last takes a character. -/
def lines : (room : Nat) → Progress → List Char → Except Fault Progress
  | 0, progress, _ => .ok progress
  | room + 1, progress, input => do
    let (progress, rest) ← statement progress (skipBlanks input)
    match ← skipComment (skipBlanks rest) with
    | [] => return progress
    | '\n' :: rest => lines room progress rest
    | _ => .error .malformed

/-- Line ends of two characters become those of one. -/
def joinLineEnds : List Char → List Char
  | '\r' :: '\n' :: rest => '\n' :: joinLineEnds rest
  | character :: rest => character :: joinLineEnds rest
  | [] => []

/-- The fields of the outermost table of a document. -/
def parse (document : String) : Except Fault (List (Text × Value)) := do
  let input := joinLineEnds document.toList
  let progress ← lines (input.length + 1) ⟨[], [], 0⟩ input
  return Draft.valuesOf progress.fields

end Toml

end TexSource
