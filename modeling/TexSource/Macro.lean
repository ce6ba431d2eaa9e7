import TexSource.Layered
import TexSource.Text.Digit
import TexSource.Token

/-!
# Macros

A macro replaces its name and arguments by a text with parameters. Its parameter
text is read off the tokens of a definition, and its replacement is filled in by
`substitute`. A doubled parameter character in a replacement stands for a single
one, so that definitions can be nested in replacements.
-/

namespace TexSource

/-- What a macro takes as one argument. -/
inductive Parameter where
  /-- One token or one group. -/
  | undelimited
  /-- Everything up to a sequence of tokens. -/
  | delimited (stop : List Token)
  /-- A text in brackets, or a default. -/
  | optional (default : List Token)
deriving DecidableEq, Repr, Inhabited

/-- A named rule of replacement. The tokens of `literal` must follow the name before
the first argument. -/
structure Macro where
  name : Text
  parameters : List Parameter
  replacement : List Token
  isGlobal : Bool := false
  literal : List Token := []
deriving DecidableEq, Repr, Inhabited

/-- The macros defined at a point of a text, in the layers of its groups. -/
abbrev Scope := Layered Text Macro

namespace Scope

/-- A scope without definitions. -/
def empty : Scope :=
  Layered.ofBindings []

/-- Defines a macro, in the bottom layer when it is global. -/
def define (scope : Scope) (definition : Macro) : Scope :=
  if definition.isGlobal then scope.assignGlobally definition.name definition
  else scope.assignLocally definition.name definition

/-- Whether a name has a definition. -/
def binds (scope : Scope) (name : Text) : Bool :=
  (scope.lookup name).isSome

end Scope

namespace Token

/-- Whether a token can be given a meaning: a control sequence or an active
character. -/
def isDefinable (token : Token) : Bool :=
  match token.kind with
  | .controlWord _ => true
  | .controlSymbol _ => true
  | .character _ .active => true
  | _ => false

/-- The name under which the meaning of a token is kept. -/
def macroName (token : Token) : Text :=
  match token.kind with
  | .character glyph _ => "active " ++ [glyph]
  | _ => token.value

/-- The number of the parameter that a digit stands for. -/
def parameterNumber? (token : Token) : Option Nat :=
  match token.kind with
  | .character glyph _ => glyph.asciiDigit?.filter (0 < ·)
  | _ => none

/-- A token that comes out of a replacement. -/
def markExpanded (token : Token) : Token :=
  { token with expanded := true }

end Token

namespace Macro

/-- Splits the parameter text of a definition into the tokens before the first
parameter and the tokens behind each parameter. A parameter character at the end
belongs to the brace behind it. -/
def splitParameterText : List Token → List Token × List (List Token)
  | [] => ([], [])
  | [token] => if token.isParameter then ([], []) else ([token], [])
  | token :: next :: rest =>
    if token.isParameter && next.parameterNumber?.isSome then
      let (stop, stops) := splitParameterText rest
      ([], stop :: stops)
    else
      let (first, stops) := splitParameterText (next :: rest)
      (token :: first, stops)

/-- A parameter that runs to the tokens behind it; without any, it is undelimited. -/
def parameterBefore (stop : List Token) : Parameter :=
  if stop = [] then .undelimited else .delimited stop

/-- The macro of a definition with a parameter text. -/
def ofParameterText (name : Text) (parameterText replacement : List Token) (isGlobal : Bool) :
    Macro :=
  let (literal, stops) := splitParameterText parameterText
  ⟨name, stops.map parameterBefore, replacement, isGlobal, literal⟩

/-- The argument for a digit behind a parameter character, if the macro has one of
that number. -/
def argument? (arguments : List (List Token)) (digit : Token) : Option (List Token) := do
  let number ← digit.parameterNumber?
  arguments[number - 1]?

/-- A replacement text with arguments in place of its parameters. -/
def substitute (arguments : List (List Token)) : List Token → List Token
  | [] => []
  | [token] => [token.markExpanded]
  | token :: next :: rest =>
    if token.isParameter then
      if next.isParameter then
        next.markExpanded :: substitute arguments rest
      else
        match argument? arguments next with
        | some argument => argument ++ substitute arguments rest
        | none => token.markExpanded :: substitute arguments (next :: rest)
    else
      token.markExpanded :: substitute arguments (next :: rest)

/-- Whether a group that was opened to a depth lasts to the last of the tokens. -/
def lastsToEnd : (depth : Nat) → List Token → Bool
  | _, [] => true
  | _, [_] => true
  | depth, token :: next :: rest =>
    if token.isBeginGroup then lastsToEnd (depth + 1) (next :: rest)
    else if token.isEndGroup then
      depth ≠ 1 && lastsToEnd (depth - 1) (next :: rest)
    else lastsToEnd depth (next :: rest)

/-- An argument without the one pair of braces that encloses all of it. -/
def stripBraces (tokens : List Token) : List Token :=
  match tokens with
  | opener :: next :: rest =>
    let closesLast := ((next :: rest).getLast?).any Token.isEndGroup
    if opener.isBeginGroup && closesLast && lastsToEnd 1 (next :: rest) then
      (next :: rest).dropLast
    else tokens
  | _ => tokens

end Macro

end TexSource
