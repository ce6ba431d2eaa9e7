import TexSource.Highlight
import TexSource.Text.Integer

/-!
# Arguments of the command line

The arguments name a subcommand, flags and files. A long flag may be shortened as long
as it stays unique, its value may follow it directly behind an equals sign or as the
next argument, and behind `--` all arguments are files. The value `--` is dropped, which
leaves a flag blank. The files stand together: files on both sides of a flag are
refused.
-/

namespace TexSource

namespace CommandLine

/-- What the program is asked to do. -/
inductive Subcommand where
  | check
  | dependencies
  | expand
  | highlight
  | format
  | parse
deriving DecidableEq, Repr, Inhabited

/-- The subcommands under their names. -/
def Subcommand.names : List (Text × Subcommand) :=
  [("check", check), ("deps", dependencies), ("dependencies", dependencies), ("expand", expand),
    ("highlight", highlight), ("hl", highlight), ("format", format), ("fmt", format),
    ("parse", parse)]

/-- The flags of the program. -/
inductive Flag where
  | help
  | config
  | debug
  | maxDepth
  | maxSteps
  | group
  | category
  | indent
deriving DecidableEq, Repr

namespace Flag

/-- The spellings of a flag. -/
def spellings : Flag → List Text
  | help => ["-h", "--help"]
  | config => ["--config"]
  | debug => ["--debug"]
  | maxDepth => ["--max-depth"]
  | maxSteps => ["--max-steps"]
  | group => ["--group"]
  | category => ["-c", "--category"]
  | indent => ["--indent"]

/-- Whether a flag takes a value. -/
def takesValue : Flag → Bool
  | help | debug | group => false
  | config | maxDepth | maxSteps | category | indent => true

end Flag

/-- The flags of a subcommand. -/
def Subcommand.flags : Subcommand → List Flag
  | check => [.help, .config, .debug, .maxDepth, .maxSteps]
  | dependencies => [.help, .config, .debug, .maxDepth, .maxSteps, .group]
  | expand => [.help, .config, .debug, .maxDepth, .maxSteps]
  | highlight => [.help, .config, .debug, .category]
  | format => [.help, .config, .debug, .indent]
  | parse => [.help, .config, .debug]

/-- The value of a flag, which is blank when it was dropped. -/
inductive Setting (Value : Type) where
  | given (value : Value)
  | blank
deriving DecidableEq, Repr

namespace Setting

/-- The value of a flag as it is written. -/
def ofText (text : Text) : Setting Text :=
  if text = "--" then blank else given text

/-- The value of a flag, if there is one. -/
def value? {Value : Type} : Setting Value → Option Value
  | given value => some value
  | blank => none

/-- What a reader makes of a value. A blank flag stays blank. -/
def read? {Value Result : Type} (reader : Value → Option Result) :
    Setting Value → Option (Setting Result)
  | given value => (reader value).map given
  | blank => some blank

end Setting

/-- Arguments that ask for no run. -/
inductive Dismissal where
  /-- The help is asked for. -/
  | help
  /-- The arguments are not accepted. -/
  | misuse
  /-- There are no arguments at all. -/
  | noSubcommand
deriving DecidableEq, Repr

/-- What the arguments ask for. -/
structure Request where
  subcommand : Subcommand
  files : List Text := []
  config : Option (Setting Text) := none
  debug : Bool := false
  maxDepth : Option (Setting Int) := none
  maxSteps : Option (Setting Int) := none
  group : Bool := false
  categories : List (Setting Highlight.Category) := []
  indent : Option (Setting Text) := none
deriving DecidableEq, Repr

/-- What is written in one word with a flag: behind its name or behind its letter, an
equals sign between them aside. -/
inductive Attached where
  | behindName (text : Text)
  | behindLetter (text : Text)
deriving DecidableEq, Repr

/-- The text that is written in one word with a flag. -/
def Attached.text : Attached → Text
  | behindName text => text
  | behindLetter text => text

/-- The part that an argument plays. -/
inductive Word where
  | flag (flag : Flag) (attached : Option Attached)
  | unknownFlag
  | plain (text : Text)
  | endOfFlags
deriving DecidableEq, Repr

/-- Whether a word reads as a negative number. A line end behind it does not count. -/
def isNegativeNumber (word : Text) : Bool :=
  match word with
  | .char '-' :: rest =>
    let body := if rest.getLast? = some (.char '\n') then rest.dropLast else rest
    let behindDigits := body.dropWhile fun glyph => glyph.decimalValue?.isSome
    match behindDigits with
    | [] => body ≠ []
    | .char '.' :: fraction =>
      fraction ≠ [] && fraction.all fun glyph => glyph.decimalValue?.isSome
    | _ => false
  | _ => false

/-- The part that an argument plays among the given flags. -/
def wordOf (flags : List Flag) (word : Text) : Except Dismissal Word :=
  let spelt := flags.flatMap fun flag => flag.spellings.map fun spelling => (spelling, flag)
  match word with
  | .char '-' :: second :: rest =>
    let isLong : Bool := second = .char '-'
    let (front, back) := word.span (· ≠ .char '=')
    let attached :=
      if back = [] then none
      else if isLong then some (Attached.behindName (back.drop 1))
      else some (Attached.behindLetter (back.drop 1))
    match spelt.lookup word, attached.bind fun _ => spelt.lookup front with
    | some flag, _ => .ok (.flag flag none)
    | none, some flag => .ok (.flag flag attached)
    | none, none =>
      let candidates := spelt.filter fun (spelling, _) =>
        if isLong then front.isPrefixOf spelling else spelling = [.char '-', second]
      match candidates with
      | [(_, flag)] =>
        .ok (.flag flag (if isLong then attached else some (.behindLetter rest)))
      | [] =>
        if isNegativeNumber word || word.contains (.char ' ') then .ok (.plain word)
        else .ok .unknownFlag
      | _ => .error .misuse
  | _ => .ok (.plain word)

/-- The parts that the arguments of a subcommand play. -/
def wordsOf (flags : List Flag) : List Text → Except Dismissal (List Word)
  | [] => .ok []
  | word :: rest =>
    if word = "--" then .ok (.endOfFlags :: rest.map Word.plain)
    else do return (← wordOf flags word) :: (← wordsOf flags rest)

/-- Whether letters behind a letter flag without a value are accepted as further
flags. A letter that takes a value has it in the letters behind itself or in the next
word. -/
def acceptsLetters (flags : List Flag) (valueFollows : Bool) : Text → Bool
  | [] => true
  | letter :: rest =>
    match flags.find? fun flag => flag.spellings.contains [.char '-', letter] with
    | none => false
    | some flag =>
      if flag.takesValue then rest ≠ [] || valueFollows
      else acceptsLetters flags valueFollows rest

/-- Where the reading of the arguments stands in relation to the files. -/
inductive FilePhase where
  | before
  | within
  | behind
deriving DecidableEq, Repr

/-- The request as far as it was read, and whether an argument was met that has no
place in it. -/
structure Progress where
  request : Request
  phase : FilePhase := .before
  stray : Bool := false

namespace Progress

/-- A word that is no file ends the files. -/
def endFiles (progress : Progress) : Progress :=
  if progress.phase = .within then { progress with phase := .behind } else progress

/-- Adds files to those that were named. -/
def takeFiles (progress : Progress) (files : List Text) : Progress :=
  if progress.phase = .behind then { progress with stray := true }
  else
    let request := { progress.request with files := progress.request.files ++ files }
    { progress with request, phase := .within }

/-- Takes a flag with its value, which does not count for a flag without one. -/
def takeFlag (progress : Progress) (flag : Flag) (value : Setting Text) :
    Except Dismissal Progress :=
  let ended := progress.endFiles
  let request := ended.request
  let keep (request : Request) : Except Dismissal Progress := .ok { ended with request }
  match flag with
  | .help => .error .help
  | .config => keep { request with config := some value }
  | .debug => keep { request with debug := true }
  | .group => keep { request with group := true }
  | .indent => keep { request with indent := some value }
  | .maxDepth =>
    match value.read? Text.integer? with
    | some limit => keep { request with maxDepth := some limit }
    | none => .error .misuse
  | .maxSteps =>
    match value.read? Text.integer? with
    | some limit => keep { request with maxSteps := some limit }
    | none => .error .misuse
  | .category =>
    match value.read? Highlight.Category.ofName? with
    | some category => keep { request with categories := request.categories ++ [category] }
    | none => .error .misuse

/-- Takes a flag with what is written in one word with it. -/
def takeAttached (flags : List Flag) (progress : Progress) (flag : Flag) (attached : Attached)
    (valueFollows : Bool) : Except Dismissal Progress :=
  if flag.takesValue then progress.takeFlag flag (.ofText attached.text)
  else
    match attached with
    | .behindName _ => .error .misuse
    | .behindLetter letters =>
      if letters ≠ [] && acceptsLetters flags valueFollows letters then
        progress.takeFlag flag .blank
      else .error .misuse

end Progress

/-- Whether a word that can be a value comes next. -/
def valueComesNext : List Word → Bool
  | .plain _ :: _ => true
  | _ => false

/-- Reads words, flags before and between the files. -/
def readWords (flags : List Flag) (progress : Progress) :
    List Word → Except Dismissal Progress
  | [] => .ok progress
  | .plain text :: rest => readWords flags (progress.takeFiles [text]) rest
  | .endOfFlags :: rest => readWords flags (progress.takeFiles []) rest
  | .unknownFlag :: rest => readWords flags { progress.endFiles with stray := true } rest
  | .flag flag (some attached) :: rest => do
    let taken ← progress.takeAttached flags flag attached (valueComesNext rest)
    readWords flags taken rest
  | .flag flag none :: .plain value :: rest => do
    if flag.takesValue then
      readWords flags (← progress.takeFlag flag (.given value)) rest
    else
      readWords flags (← progress.takeFlag flag .blank) (.plain value :: rest)
  | .flag flag none :: rest => do
    if flag.takesValue then .error .misuse
    else readWords flags (← progress.takeFlag flag .blank) rest

/-- Reads the arguments behind the name of a subcommand. -/
def readSubcommand (subcommand : Subcommand) (arguments : List Text) :
    Except Dismissal Request := do
  let words ← wordsOf subcommand.flags arguments
  let progress ← readWords subcommand.flags { request := { subcommand } } words
  if progress.stray then .error .misuse else return progress.request

/-- Reads the arguments behind those that were met already, of which some may be
stray. -/
def readBehind (stray : Bool) : List Text → Except Dismissal Request
  | [] => .error (if stray then .misuse else .noSubcommand)
  | word :: rest => do
    if word = "--" then .error .misuse
    else
      match ← wordOf [.help] word with
      | .flag _ none => .error .help
      | .flag _ (some (.behindLetter letters)) =>
        .error (if letters ≠ [] && acceptsLetters [.help] false letters then .help else .misuse)
      | .flag _ (some (.behindName _)) => .error .misuse
      | .plain name =>
        match Subcommand.names.lookup name with
        | some subcommand =>
          let request ← readSubcommand subcommand rest
          if stray then .error .misuse else return request
        | none => .error .misuse
      | _ => readBehind true rest

/-- What the arguments of the program ask for. -/
def readArguments (arguments : List Text) : Except Dismissal Request :=
  readBehind false arguments

end CommandLine

end TexSource
