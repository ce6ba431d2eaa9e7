import TexSource.Document
import TexSource.Text.Quoted

/-!
# Outlines

The tree of a document as indented lines, one for each node. The blanks skipped
before arguments and the heads of environments are left out.
-/

namespace TexSource

namespace Outline

/-- A line at a depth. -/
def line (depth : Nat) (content : Text) : Text :=
  List.replicate (2 * depth) (.char ' ') ++ content ++ [.char '\n']

/-- A remark in parentheses, where it applies. -/
def remark (applies : Bool) (content : String) : Text :=
  if applies then " (" ++ content ++ ")" else []

/-- A token as its kind and what it is written as; blanks have their kind alone. -/
def ofToken (token : Token) : Text :=
  match token.kind with
  | .comment content => "Comment(" ++ content.quoted ++ ")"
  | kind =>
    if token.isBlank then kind.label
    else kind.label ++ "(" ++ token.raw.quoted ++ ")"

/-- The word for a group. -/
def groupLabel : Delimiter → Text
  | .root => "Root"
  | delimiter => "Group " ++ delimiter.text

mutual

/-- The lines of a node and of those below it. -/
def ofNode (depth : Nat) : Node → Text
  | .leaf _ placed => line depth (ofToken placed.token)
  | .group _ delimiter _ children closer _ =>
    line depth (groupLabel delimiter ++
      remark (delimiter ≠ .root && closer.isNone) "unclosed") ++
      ofNodes (depth + 1) children
  | .math _ display _ children closer _ =>
    line depth ("Math " ++ (if display then "display" else "inline" : Text) ++
      remark closer.isNone "unclosed") ++
      ofNodes (depth + 1) children
  | .command ⟨_, name, _, star, arguments, _⟩ =>
    line depth ("Command \\" ++ name ++ (if star.isSome then "*" else [] : Text)) ++
      ofArguments (depth + 1) arguments
  | .environment _ name _ body _ matched _ =>
    line depth ("Environment " ++ name ++ remark (!matched) "mismatched") ++
      ofNodes (depth + 1) body
  | .inclusion _ _ fileId path ⟨_, _, _, root, _, _⟩ _ =>
    line depth ("Include " ++ path ++ " (file " ++ Text.ofNat fileId ++ ")") ++
      ofNode (depth + 1) root

/-- The lines of a sequence of nodes. -/
def ofNodes (depth : Nat) : List Node → Text
  | [] => []
  | node :: rest => ofNode depth node ++ ofNodes depth rest

/-- The lines of arguments. -/
def ofArguments (depth : Nat) : List Argument → Text
  | [] => []
  | ⟨kind, _, content⟩ :: rest =>
    line depth ("Arg " ++ kind.name) ++ ofNode (depth + 1) content ++ ofArguments depth rest

end

end Outline

/-- The tree of a document, a line for each node. -/
def Document.outline (document : Document) : Text :=
  Outline.line 0 ("Document file=" ++ Text.ofNat document.fileId ++ " size=" ++
    Text.ofNat document.size) ++
    Outline.ofNode 1 document.root

end TexSource
