import TexSource.Layered
import TexSource.Text.Blank
import TexSource.Text.Quoted

/-!
# Signatures of commands and environments

A signature lists the arguments that a command or the head of an environment
takes. A command table holds the known signatures, with the names of the
environments whose bodies are not TeX.
-/

namespace TexSource

/-- Whether an argument must be there. -/
inductive ArgumentKind where
  | mandatory
  | optional
deriving DecidableEq, Repr, Inhabited

namespace ArgumentKind

/-- The name of a kind of argument. -/
def name : ArgumentKind → String
  | mandatory => "mandatory"
  | optional => "optional"

/-- The letter for an argument kind in a written signature. -/
def letter : ArgumentKind → Glyph
  | mandatory => .char 'm'
  | optional => .char 'o'

/-- The argument kind that a letter of a written signature stands for. -/
def ofLetter? (glyph : Glyph) : Option ArgumentKind :=
  if glyph = .char 'm' then some mandatory
  else if glyph = .char 'o' then some optional
  else none

end ArgumentKind

/-- The arguments of a command, and whether a star may stand before them. -/
structure Signature where
  arguments : List ArgumentKind
  starred : Bool
deriving DecidableEq, Repr, Inhabited

/-- A written signature with a letter that stands for no argument kind. -/
structure InvalidSignature where
  written : Text
deriving DecidableEq, Repr

/-- The wording of the complaint about a written signature. -/
def InvalidSignature.message (invalid : InvalidSignature) : Text :=
  "invalid argument signature: " ++ invalid.written.quoted

namespace Signature

/-- The signature without arguments, of commands nothing is known about. -/
def unknown : Signature := ⟨[], false⟩

/-- A signature as letters, one for each argument. -/
def letters (signature : Signature) : Text :=
  signature.arguments.map ArgumentKind.letter

/-- The signature that letters spell. -/
def ofLetters (written : Text) (starred : Bool) : Except InvalidSignature Signature :=
  match written.mapM ArgumentKind.ofLetter? with
  | some arguments => .ok ⟨arguments, starred⟩
  | none => .error ⟨written⟩

/-- Reads a signature of a command, where a leading star allows a star. -/
def ofStarredLetters (written : Text) : Except InvalidSignature Signature :=
  ofLetters (written.dropWhile (· = .char '*')) (written.head? = some (.char '*'))

end Signature

/-- The known signatures of commands and environments, and the environments whose
body runs to their end as it is written. -/
structure CommandTable where
  commands : Bindings Text Signature
  environments : Bindings Text Signature
  verbatim : List Text

/-- A signature to be entered in a table, as it is written. -/
inductive Declaration where
  | command (name written : Text)
  | environment (name written : Text)

namespace CommandTable

/-- One signature for several names. -/
def entries (arguments : List ArgumentKind) (starred : Bool) (names : List String) :
    Bindings Text Signature :=
  names.map fun name => (Text.ofString name, ⟨arguments, starred⟩)

/-- The signatures of the standard commands. -/
def standardCommands : Bindings Text Signature :=
  entries [.optional, .mandatory] false
    ["documentclass", "usepackage", "RequirePackage", "addbibresource", "lstinputlisting", "sqrt"]
    ++ entries [.optional, .mandatory] true
      ["part", "chapter", "section", "subsection", "subsubsection", "paragraph", "subparagraph",
        "caption", "cite", "citep", "citet", "nocite", "includegraphics"]
    ++ entries [.mandatory] false
      ["title", "author", "date", "thanks", "begin", "end", "input", "include", "subfile",
        "includeonly", "label", "ref", "eqref", "pageref", "autoref", "nameref", "url",
        "bibliography", "bibliographystyle", "textbf", "textit", "texttt", "textsc", "textsf",
        "textrm", "emph", "underline", "mbox", "footnote"]
    ++ entries [.mandatory] true ["hspace", "vspace"]
    ++ entries [.mandatory, .mandatory] false ["href", "frac"]
    ++ entries [.optional, .mandatory, .mandatory] false ["inputminted"]
    ++ entries [.optional] true ["\\"]
    ++ entries [.optional] false ["item"]
    ++ entries [] true ["newcommand", "renewcommand", "providecommand"]

/-- The signatures of the standard environments. -/
def standardEnvironments : Bindings Text Signature :=
  entries [.optional] false ["figure", "table", "lstlisting"]
    ++ entries [.optional, .mandatory] false ["tabular", "minipage", "minted"]
    ++ entries [.mandatory] false ["thebibliography"]

/-- The environments whose bodies are read verbatim. -/
def standardVerbatim : List Text :=
  ["verbatim", "verbatim*", "Verbatim", "lstlisting", "minted", "comment"]

/-- The table of the standard commands and environments. -/
def standard : CommandTable :=
  ⟨standardCommands, standardEnvironments, standardVerbatim⟩

/-- The signature of a command. Unknown ones share one signature. -/
def command (table : CommandTable) (name : Text) : Signature :=
  (table.commands.get? name).getD Signature.unknown

/-- The signature of the head of an environment, which its starred forms share. -/
def environment (table : CommandTable) (name : Text) : Signature :=
  (table.environments.get? (name.dropWhileEnd (· = .char '*'))).getD Signature.unknown

/-- Whether the body of an environment is not TeX. -/
def isVerbatim (table : CommandTable) (name : Text) : Bool :=
  table.verbatim.contains name

/-- Enters a signature. Only those of commands may start with a star. -/
def declare (table : CommandTable) : Declaration → Except InvalidSignature CommandTable
  | .command name written => do
    let signature ← Signature.ofStarredLetters written
    return { table with commands := table.commands.insert name signature }
  | .environment name written => do
    let signature ← Signature.ofLetters written false
    return { table with environments := table.environments.insert name signature }

/-- Enters signatures in their order, up to the first that is invalid. -/
def declareAll (table : CommandTable) :
    List Declaration → CommandTable × Except InvalidSignature Unit
  | [] => (table, .ok ())
  | declaration :: rest =>
    match table.declare declaration with
    | .ok extended => extended.declareAll rest
    | .error invalid => (table, .error invalid)

end CommandTable

end TexSource
