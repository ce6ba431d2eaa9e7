import TexSource.Document.Construct
import TexSource.Token.Lexer

/-!
# Building the tree of a document

The parser reads a list of tokens once, from left to right, and always to its
end: constructs that are not finished stay in the tree with a report. The recursion
between levels is on the room that is left, and within a level on what can still be
taken.
-/

namespace TexSource

namespace Parser

section

variable (context : Context)

/-- Whether a sequence of nodes ends before a token. -/
def endsBefore (closing : Closing) (mode : Mode) (token : Token) : Bool :=
  (mode.inGroup && token.isEndGroup) || (mode.inEnvironment && token.isControlWord "end") ||
    closing.isAt token

/-- The nodes up to the closing, after those already read. -/
def nodesUntil (inner : Inner) (closing : Closing) (mode : Mode) (nodes : Array Node)
    (state : State) : List Node × State :=
  match _ahead : state.rest with
  | [] => (nodes.toList, state)
  | token :: _ =>
    if endsBefore closing mode token then
      (nodes.toList, state)
    else
      let read := node context inner mode state
      nodesUntil inner closing mode (nodes.push read.1) read.2
termination_by weight state.rest
decreasing_by exact (advances_node context inner mode).weight_lt state (by simp [_ahead])

/-- A sequence of nodes takes tokens from the front alone. -/
theorem shrinks_nodesUntil (inner : Inner) (closing : Closing) (mode : Mode)
    (nodes : Array Node) : Shrinks (nodesUntil context inner closing mode nodes) := by
  constructor
  intro state
  fun_induction nodesUntil context inner closing mode nodes state with
  | case1 => exact Nat.le_refl _
  | case2 => exact Nat.le_refl _
  | case3 =>
    rename_i read later
    exact Nat.le_trans later ((advances_node context inner mode).weight_le _)

/-- The reader of a level with room for the given number of levels below. -/
def level : (room : Nat) → Nested
  | 0 => ⟨fun closing mode => nodesUntil context none closing mode #[], fun _ _ =>
      shrinks_nodesUntil ..⟩
  | room + 1 => ⟨fun closing mode => nodesUntil context (some (level room)) closing mode #[],
      fun _ _ => shrinks_nodesUntil ..⟩

/-- The nodes of a list of tokens without an end of input. -/
def nodesOf (content : List Token) : List Node × State :=
  (level context maxNesting).read .never ⟨false, false, false⟩ ⟨#[], content, 0, #[], false⟩

end

end Parser

namespace Document

/-- Tokens in front of the end of input. -/
def contentOf (tokens : List Token) : List Token :=
  tokens.takeWhile fun token => !token.isEndOfInput

/-- The end of input of a list of tokens, behind the last token if the list lacks one. -/
def endOf (tokens : List Token) (fileId : FileId) : Token :=
  (tokens.find? Token.isEndOfInput).getD <|
    Token.endOfInputAt (((contentOf tokens).getLast?.map (·.span.stop)).getD Position.start) fileId

/-- The document of a list of tokens. The end of input is added if the list lacks
it. -/
def ofTokens (tokens : List Token) (source : Text) (fileId : FileId) (commands : CommandTable) :
    Document :=
  let endOfInput := endOf tokens fileId
  let (children, state) := Parser.nodesOf ⟨fileId, commands, endOfInput⟩ (contentOf tokens)
  let start := (((contentOf tokens).head?).getD endOfInput).span.start
  { fileId := fileId
    source := source
    tokens := state.taken.toList ++ [endOfInput]
    root := .group state.created .root none children none
      ⟨start, endOfInput.span.stop, fileId⟩
    diagnostics := state.diagnostics.toList
    size := endOfInput.span.stop.offset }

/-- The document of a source text, with the reports of reading its tokens before
those of building its tree. -/
def parse (source : Text) (table : Catcode.Table) (commands : CommandTable) (fileId : FileId) :
    Except NumberError Document := do
  let (tokens, reports) ← lex source table fileId
  let document := ofTokens tokens source fileId commands
  return { document with diagnostics := reports ++ document.diagnostics }

end Document

end TexSource
