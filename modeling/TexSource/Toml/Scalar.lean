import TexSource.Text.Digit
import TexSource.Toml.Value

/-!
# TOML strings, numbers and times

The readers of the values without structure. Each takes its value from the front of
the characters that are left and returns it with those behind it.
-/

namespace TexSource

namespace Toml

/-- Why a document cannot be read. -/
inductive Fault where
  | malformed
  | number (error : NumberError)
deriving DecidableEq, Repr

/-- An item that was read, and the characters behind it. -/
abbrev Taken (Item : Type) := Item × List Char

/-- Characters as a text. -/
def textOf (characters : List Char) : Text :=
  characters.map Glyph.char

/-- Whether a character is a space or a tab. -/
def isBlank (character : Char) : Bool :=
  character = ' ' || character = '\t'

/-- Whether a character is a blank or a line end. -/
def isBlankOrNewline (character : Char) : Bool :=
  isBlank character || character = '\n'

/-- The characters that may stand in a comment or in a string on one line. -/
def isLineCharacter (character : Char) : Bool :=
  character = '\t' || (0x20 ≤ character.toNat && character.toNat ≠ 0x7F)

/-- The characters that may stand in a string, which is a block or on one line. -/
def isStringCharacter (block : Bool) (character : Char) : Bool :=
  isLineCharacter character || (block && character = '\n')

/-- The value of a hexadecimal digit. -/
def hexadecimalDigit? (character : Char) : Option Nat :=
  if character.isDigit then some (character.toNat - '0'.toNat)
  else if 'a' ≤ character && character ≤ 'f' then some (character.toNat - 'a'.toNat + 10)
  else if 'A' ≤ character && character ≤ 'F' then some (character.toNat - 'A'.toNat + 10)
  else none

/-- The value of a digit in a base of at most sixteen. -/
def digitIn? (base : Nat) (character : Char) : Option Nat :=
  (hexadecimalDigit? character).filter (· < base)

/-- The number that digits spell in a base. -/
def numberIn (base : Nat) (digits : List Nat) : Nat :=
  digits.foldl (fun number digit => number * base + digit) 0

/-- The closing quotes of a block may follow one or two quotes of its content. -/
def extraQuotes (quote : Char) (input : List Char) : List Char × List Char :=
  let extra := (input.take 2).takeWhile (· = quote)
  (extra, input.drop extra.length)

/-- A string in single quotes, which has no escapes. -/
def literalString (input : List Char) : Except Fault (Taken Text) :=
  let (content, rest) := input.span (· ≠ '\x27')
  if rest ≠ [] && content.all isLineCharacter then .ok (textOf content, rest.drop 1)
  else .error .malformed

/-- The rest of a block of characters without escapes, behind those already taken (the
latest first). -/
def literalBlock (taken : List Char) : List Char → Except Fault (Taken Text)
  | '\x27' :: '\x27' :: '\x27' :: rest =>
    let (extra, rest) := extraQuotes '\x27' rest
    .ok (textOf (taken.reverse ++ extra), rest)
  | character :: rest =>
    if isStringCharacter true character then literalBlock (character :: taken) rest
    else .error .malformed
  | [] => .error .malformed

/-- The character with a code point in hexadecimal digits. -/
def characterOf? (digits : List Char) : Option Char := do
  let values ← digits.mapM hexadecimalDigit?
  let code := numberIn 16 values
  if code.isValidChar then some (Char.ofNat code) else none

/-- What the characters behind a backslash stand for, and how many they are. At the
end of a line of a block, a backslash takes the white space up to the next text away. -/
def escape? (block : Bool) (input : List Char) : Option (List Char × Nat) :=
  match input with
  | 'b' :: _ => some (['\x08'], 1)
  | 't' :: _ => some (['\t'], 1)
  | 'n' :: _ => some (['\n'], 1)
  | 'f' :: _ => some (['\x0C'], 1)
  | 'r' :: _ => some (['\r'], 1)
  | '"' :: _ => some (['"'], 1)
  | '\\' :: _ => some (['\\'], 1)
  | 'u' :: rest =>
    if rest.length < 4 then none
    else (characterOf? (rest.take 4)).map fun character => ([character], 5)
  | 'U' :: rest =>
    if rest.length < 8 then none
    else (characterOf? (rest.take 8)).map fun character => ([character], 9)
  | first :: _ =>
    let blank := input.takeWhile isBlankOrNewline
    if block && isBlankOrNewline first && (blank.contains '\n' || blank.length = input.length)
    then some ([], blank.length)
    else none
  | [] => none

/-- The rest of a string with escapes, which is a block or on one line, behind the
characters already taken (the latest first). -/
def basicString (block : Bool) (taken : List Char) : List Char → Except Fault (Taken Text)
  | [] => .error .malformed
  | '"' :: rest =>
    if !block then .ok (textOf taken.reverse, rest)
    else if ['"', '"'].isPrefixOf rest then
      let (extra, rest) := extraQuotes '"' (rest.drop 2)
      .ok (textOf (taken.reverse ++ extra), rest)
    else basicString block ('"' :: taken) rest
  | '\\' :: rest =>
    match escape? block rest with
    | some (characters, count) =>
      basicString block (characters.reverse ++ taken) (rest.drop count)
    | none => .error .malformed
  | character :: rest =>
    if isStringCharacter block character then basicString block (character :: taken) rest
    else .error .malformed
termination_by input => input.length
decreasing_by
  · simp only [List.length_cons]
    omega
  · simp only [List.length_cons, List.length_drop]
    omega
  · simp only [List.length_cons]
    omega

/-- The characters of a block behind its opening quotes, where a line end directly
behind the quotes does not count. -/
def blockStart : List Char → List Char
  | '\n' :: rest => rest
  | input => input

/-- A string, if one starts here. -/
def string? (input : List Char) : Option (Except Fault (Taken Text)) :=
  match input with
  | '"' :: '"' :: '"' :: rest => some (basicString true [] (blockStart rest))
  | '"' :: rest => some (basicString false [] rest)
  | '\x27' :: '\x27' :: '\x27' :: rest => some (literalBlock [] (blockStart rest))
  | '\x27' :: rest => some (literalString rest)
  | _ => none

/-- The digits from here on, with single underscores between them left out. -/
def moreDigits (base : Nat) : List Char → List Nat × List Char
  | [] => ([], [])
  | '_' :: character :: rest =>
    match digitIn? base character with
    | some digit =>
      let (digits, rest) := moreDigits base rest
      (digit :: digits, rest)
    | none => ([], '_' :: character :: rest)
  | character :: rest =>
    match digitIn? base character with
    | some digit =>
      let (digits, rest) := moreDigits base rest
      (digit :: digits, rest)
    | none => ([], character :: rest)

/-- A run of digits that starts with a digit. It may be empty. -/
def digits (base : Nat) (input : List Char) : List Nat × List Char :=
  match input with
  | '_' :: _ => ([], input)
  | _ => moreDigits base input

/-- A natural number with the mark of its base, if one starts here. -/
def markedNumber? (input : List Char) : Option (Taken Nat) :=
  let inBase (base : Nat) (input : List Char) : Option (Taken Nat) :=
    match digits base input with
    | ([], _) => none
    | (found, rest) => some (numberIn base found, rest)
  match input with
  | '0' :: 'x' :: rest => inBase 16 rest
  | '0' :: 'o' :: rest => inBase 8 rest
  | '0' :: 'b' :: rest => inBase 2 rest
  | _ => none

/-- A sign, if one stands here: whether it is a minus, and the rest. -/
def sign : List Char → Bool × List Char
  | '-' :: rest => (true, rest)
  | '+' :: rest => (false, rest)
  | input => (false, input)

/-- The digits of a number before its point. A zero stands alone. -/
def wholeDigits : List Char → List Nat × List Char
  | '0' :: rest => ([0], rest)
  | input => digits 10 input

/-- The digits behind a point, if there are any. -/
def fractionDigits (input : List Char) : List Nat × List Char :=
  match input with
  | '.' :: rest =>
    match digits 10 rest with
    | ([], _) => ([], input)
    | (found, rest) => (found, rest)
  | _ => ([], input)

/-- The exponent of a number, if it has one. -/
def exponent? (input : List Char) : Option Int × List Char :=
  match input with
  | mark :: rest =>
    let (negative, unsigned) := sign rest
    match digits 10 unsigned with
    | ([], _) => (none, input)
    | (found, rest) =>
      let size : Int := decimalNumber found
      if mark = 'e' || mark = 'E' then (some (if negative then -size else size), rest)
      else (none, input)
  | [] => (none, input)

/-- A number in base ten, if one starts here. With a point or an exponent it is a
floating-point number. -/
def decimal? (input : List Char) : Option (Except Fault (Taken Value)) :=
  let (negative, unsigned) := sign input
  match wholeDigits unsigned with
  | ([], _) => none
  | (whole, rest) =>
    let (fraction, rest) := fractionDigits rest
    let (exponent, rest) := exponent? rest
    if fraction = [] && exponent.isNone then
      if maxNumberDigits < whole.length then
        some (.error (.number (.tooLong whole.length)))
      else
        let size : Int := decimalNumber whole
        some (.ok (.integer (if negative then -size else size), rest))
    else
      let number := Binary64.ofDecimal negative (decimalNumber (whole ++ fraction))
        (exponent.getD 0 - fraction.length)
      some (.ok (.float number, rest))

/-- The rest of the characters behind a word, if it stands here. -/
def behind? (word : String) (input : List Char) : Option (List Char) :=
  if word.toList.isPrefixOf input then some (input.drop word.length) else none

/-- A number that is not finite, if one starts here. -/
def special? (input : List Char) : Option (Taken Value) :=
  let (negative, unsigned) := sign input
  match behind? "inf" unsigned, behind? "nan" unsigned with
  | some rest, _ => some (.float (.infinite negative), rest)
  | none, some rest => some (.float .notANumber, rest)
  | none, none => none

/-- A number of two digits between two bounds, if one stands here. -/
def twoDigits? (least greatest : Nat) : List Char → Option (Taken Nat)
  | tens :: ones :: rest => do
    let number := 10 * (← digitIn? 10 tens) + (← digitIn? 10 ones)
    if least ≤ number && number ≤ greatest then some (number, rest) else none
  | _ => none

/-- The characters behind a separator, if it stands here. -/
def separator? (isSeparator : Char → Bool) : List Char → Option (List Char)
  | character :: rest => if isSeparator character then some rest else none
  | [] => none

/-- A date, if one stands here. -/
def date? (input : List Char) : Option (Taken Date) := do
  let (century, rest) ← twoDigits? 0 99 input
  let (year, rest) ← twoDigits? 0 99 rest
  let (month, rest) ← twoDigits? 1 12 (← separator? (· = '-') rest)
  let (day, rest) ← twoDigits? 1 31 (← separator? (· = '-') rest)
  return (⟨100 * century + year, month, day⟩, rest)

/-- The fraction of a second in microseconds. Further digits do not count. -/
def microseconds (input : List Char) : Nat × List Char :=
  match input with
  | '.' :: rest =>
    let fraction := rest.takeWhile Char.isDigit
    if fraction = [] then (0, input)
    else
      let six := fraction.take 6 ++ List.replicate (6 - fraction.length) '0'
      (numberIn 10 (six.filterMap (digitIn? 10)), rest.drop fraction.length)
  | _ => (0, input)

/-- A time of day, if one stands here. -/
def time? (input : List Char) : Option (Taken Time) := do
  let (hour, rest) ← twoDigits? 0 23 input
  let (minute, rest) ← twoDigits? 0 59 (← separator? (· = ':') rest)
  let (second, rest) ← twoDigits? 0 59 (← separator? (· = ':') rest)
  let (microsecond, rest) := microseconds rest
  return (⟨hour, minute, second, microsecond⟩, rest)

/-- An offset from universal time in minutes, if one stands here. -/
def offset? (input : List Char) : Option (Taken Int) :=
  match input with
  | 'Z' :: rest => some (0, rest)
  | 'z' :: rest => some (0, rest)
  | signCharacter :: rest => do
    if signCharacter ≠ '+' && signCharacter ≠ '-' then none
    let (hours, rest) ← twoDigits? 0 23 rest
    let (minutes, rest) ← twoDigits? 0 59 (← separator? (· = ':') rest)
    let size : Int := 60 * hours + minutes
    return (if signCharacter = '-' then -size else size, rest)
  | [] => none

/-- A time behind a date and its separator, with the offset, if one stands here. -/
def clock? (input : List Char) : Option (Taken (Time × Option Int)) := do
  let rest ← separator? (fun character => character = 'T' || character = 't' || character = ' ')
    input
  let (time, rest) ← time? rest
  match offset? rest with
  | some (offset, rest) => return ((time, some offset), rest)
  | none => return ((time, none), rest)

/-- A date or a time, if one starts here. A date must be a day of the calendar. -/
def moment? (input : List Char) : Option (Except Fault (Taken Value)) :=
  match date? input, time? input with
  | some (date, rest), _ =>
    if !date.isValid then some (.error .malformed)
    else
      match clock? rest with
      | some ((time, offset), rest) => some (.ok (.dateTime date time offset, rest))
      | none => some (.ok (.date date, rest))
  | none, some (time, rest) => some (.ok (.time time, rest))
  | none, none => none

/-- A truth value, if one stands here. -/
def boolean? (input : List Char) : Option (Taken Value) :=
  match behind? "true" input, behind? "false" input with
  | some rest, _ => some (.boolean true, rest)
  | none, some rest => some (.boolean false, rest)
  | none, none => none

/-- A value that is no array and no table. -/
def scalar (input : List Char) : Except Fault (Taken Value) :=
  let named := (boolean? input).map Except.ok
  let string := (string? input).map fun read => do
    let (content, rest) ← read
    return (Value.string content, rest)
  let marked := (markedNumber? input).map fun (number, rest) =>
    .ok (Value.integer number, rest)
  let special := (special? input).map Except.ok
  ((string <|> named <|> moment? input <|> marked <|> decimal? input <|> special).getD
    (.error .malformed))

end Toml

end TexSource
