import TexSource.Expansion.Branch

/-!
# Expansion

The expansion of a document in a scope, and the scope that the definitions of a
source text leave behind.
-/

namespace TexSource

/-- What an expansion leaves behind: the expanded document with the reports of
expanding it, or the failure that ended it, and in either case the scope and the
file table as they are then. -/
structure Expanded where
  outcome : Except DocumentError (Document × List Diagnostic)
  scope : Scope
  table : FileTable

namespace Expansion

/-- The expansion of a document from the definitions of a scope, with the files that it includes. -/
def expand (settings : Settings) (document : Document) (scope : Scope) (table : FileTable) :
    Expanded :=
  let room := settings.limits.maxIncludeDepth.toNat
  match expandNested settings room document [document.fileId] ⟨scope, table, #[], []⟩ with
  | .error abort => ⟨.error abort.cause, abort.shared.scope, abort.shared.table⟩
  | .ok (expanded, shared) =>
    ⟨.ok (expanded, shared.diagnostics.toList), shared.scope, shared.table⟩

end Expansion

namespace Scope

/-- The scope that the definitions of a source text leave behind. -/
def ofSource (files : FileSystem) (source : Text) : Except DocumentError Scope := do
  let document ← (Document.parse source Catcode.Table.standard CommandTable.standard 0).mapError
    DocumentError.number
  let expanded := Expansion.expand ⟨files, {}, CommandTable.standard⟩ document Scope.empty
    (FileTable.empty files.currentDirectory)
  let _ ← expanded.outcome
  return expanded.scope

end Scope

end TexSource
