import TexSource.Binary64.Shortest
import TexSource.Text.Digit

/-!
# TOML values

The values of a TOML document. A table keeps its fields in the order in which they
were first mentioned. `Value.text` is a value as it stands alone in a message and
`Value.shown` a value as it is shown inside another one. A value that holds too long a
number has no text (`Value.text?`).
-/

namespace TexSource

namespace Toml

/-- A day of the calendar. -/
structure Date where
  year : Nat
  month : Nat
  day : Nat
deriving DecidableEq, Repr

/-- A time of the day. -/
structure Time where
  hour : Nat
  minute : Nat
  second : Nat
  microsecond : Nat
deriving DecidableEq, Repr

/-- A value of a document. The time of a day may come with its offset from universal
time in minutes. -/
inductive Value where
  | string (content : Text)
  | integer (number : Int)
  | float (number : Binary64)
  | boolean (holds : Bool)
  | date (day : Date)
  | time (clock : Time)
  | dateTime (day : Date) (clock : Time) (offset : Option Int)
  | array (items : List Value)
  | table (fields : List (Text × Value))
deriving Repr, Inhabited

/-- A number in decimal digits, at least `width` of them. -/
def padded (width number : Nat) : Text :=
  let digits := Text.ofNat number
  List.replicate (width - digits.length) (Glyph.char '0') ++ digits

namespace Date

/-- Whether a year is a leap year. -/
def isLeapYear (year : Nat) : Bool :=
  year % 4 = 0 && (year % 100 ≠ 0 || year % 400 = 0)

/-- The number of days in a month. -/
def daysInMonth (year month : Nat) : Nat :=
  if month = 2 then if isLeapYear year then 29 else 28
  else if [4, 6, 9, 11].contains month then 30
  else 31

/-- Whether a date is a day of the calendar, which starts with the year one. -/
def isValid (date : Date) : Bool :=
  0 < date.year && 0 < date.month && date.month ≤ 12 && 0 < date.day &&
    date.day ≤ daysInMonth date.year date.month

/-- A date as digits. -/
def text (date : Date) : Text :=
  padded 4 date.year ++ "-" ++ padded 2 date.month ++ "-" ++ padded 2 date.day

/-- The year, the month and the day. -/
def numbers (date : Date) : List Nat :=
  [date.year, date.month, date.day]

end Date

namespace Time

/-- A time with its fraction of a second, if there is one. -/
def text (time : Time) : Text :=
  padded 2 time.hour ++ ":" ++ padded 2 time.minute ++ ":" ++ padded 2 time.second ++
    (if time.microsecond = 0 then [] else "." ++ padded 6 time.microsecond : Text)

/-- The numbers of a time. Seconds and microseconds at its end are left out when they
are zero. -/
def numbers (time : Time) : List Nat :=
  if time.microsecond ≠ 0 then [time.hour, time.minute, time.second, time.microsecond]
  else if time.second ≠ 0 then [time.hour, time.minute, time.second]
  else [time.hour, time.minute]

end Time

/-- An offset from universal time in hours and minutes. -/
def offsetText (minutes : Int) : Text :=
  (if minutes < 0 then "-" else "+" : Text) ++ padded 2 (minutes.natAbs / 60) ++ ":" ++
    padded 2 (minutes.natAbs % 60)

/-- A value as the call that constructs it. -/
def call (name : String) (items : List Text) : Text :=
  name ++ "(" ++ Text.join ", " items ++ ")"

/-- An offset as it is shown inside another value. A negative one counts back from a
whole day. -/
def shownOffset (minutes : Int) : Text :=
  if minutes = 0 then "datetime.timezone.utc"
  else
    let parts : List Text :=
      if minutes < 0 then
        ["days=-1", "seconds=" ++ Text.ofNat ((minutes + 24 * 60) * 60).toNat]
      else ["seconds=" ++ Text.ofNat (minutes * 60).toNat]
    call "datetime.timezone" [call "datetime.timedelta" parts]

namespace Value

mutual

/-- A value as it is shown inside another one. -/
def shown : Value → Text
  | string content => content.quoted
  | integer number => Text.ofInt number
  | float number => number.text
  | boolean holds => if holds then "True" else "False"
  | date day => call "datetime.date" (day.numbers.map Text.ofNat)
  | time clock => call "datetime.time" (clock.numbers.map Text.ofNat)
  | dateTime day clock offset =>
    call "datetime.datetime" ((day.numbers ++ clock.numbers).map Text.ofNat ++
      offset.toList.map fun minutes => "tzinfo=" ++ shownOffset minutes)
  | array items => "[" ++ Text.join ", " (shownItems items) ++ "]"
  | table fields => "\x7b" ++ Text.join ", " (shownFields fields) ++ "\x7d"

/-- The items of an array as they are shown. -/
def shownItems : List Value → List Text
  | [] => []
  | item :: rest => shown item :: shownItems rest

/-- The fields of a table as they are shown. -/
def shownFields : List (Text × Value) → List Text
  | [] => []
  | (name, value) :: rest => (name.quoted ++ ": " ++ shown value) :: shownFields rest

end

/-- A value as it is printed. -/
def text : Value → Text
  | string content => content
  | date day => day.text
  | time clock => clock.text
  | dateTime day clock offset =>
    day.text ++ " " ++ clock.text ++ offset.toList.flatMap offsetText
  | value => value.shown

mutual

/-- Whether a value holds a number with more digits than are written. -/
def hasLongNumber : Value → Bool
  | integer number => decide (Nat.pow 10 maxNumberDigits ≤ number.natAbs)
  | array items => anyHasLongNumber items
  | table fields => anyFieldHasLongNumber fields
  | _ => false

/-- Whether one of the items of an array holds a number with too many digits. -/
def anyHasLongNumber : List Value → Bool
  | [] => false
  | item :: rest => item.hasLongNumber || anyHasLongNumber rest

/-- Whether one of the fields of a table holds a number with too many digits. -/
def anyFieldHasLongNumber : List (Text × Value) → Bool
  | [] => false
  | (_, value) :: rest => value.hasLongNumber || anyFieldHasLongNumber rest

end

/-- A value as it stands alone, which fails for a number with too many digits. -/
def text? (value : Value) : Except NumberError Text :=
  if value.hasLongNumber then .error .tooLongToWrite else .ok value.text

end Value

end Toml

end TexSource
