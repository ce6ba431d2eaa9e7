import TexSource.Text.Glyph

/-!
# Paths

A path is a sequence of names behind a root. Writing a path as text drops doubled
slashes and the name `.`; the name `..` stays until the path is made canonical.
-/

namespace TexSource

namespace Path

/-- Where a path starts. Two leading slashes are kept apart from one; three or more
count as one. -/
inductive Root where
  | relative
  | slash
  | doubleSlash
deriving DecidableEq, Repr, Inhabited

end Path

/-- A path of a file or a directory. -/
structure Path where
  root : Path.Root
  names : List Text
deriving DecidableEq, Repr, Inhabited

namespace Path

/-- The name of a directory in itself. -/
def here : Text := "."

/-- The name of the directory above another one. -/
def above : Text := ".."

/-- The path that a text spells. -/
def ofText (text : Text) : Path :=
  let slashes := (text.takeWhile (· = .char '/')).length
  let root : Root :=
    if slashes = 0 then .relative else if slashes = 2 then .doubleSlash else .slash
  ⟨root, (text.splitAtEach (.char '/')).filter fun name => name ≠ [] && name ≠ here⟩

/-- A path as text. The empty relative path is the current directory. -/
def toText (path : Path) : Text :=
  let names := Text.join "/" path.names
  match path.root with
  | .relative => if path.names = [] then here else names
  | .slash => .char '/' :: names
  | .doubleSlash => .char '/' :: .char '/' :: names

/-- Whether a path starts at the root of the file system. -/
def isAbsolute (path : Path) : Bool :=
  path.root ≠ .relative

/-- A path, seen from a directory unless it is absolute. -/
def join (directory path : Path) : Path :=
  if path.isAbsolute then path else { directory with names := directory.names ++ path.names }

/-- The directory that holds the file of a path. -/
def parent (path : Path) : Path :=
  { path with names := path.names.dropLast }

/-- The last name of a path. -/
def name (path : Path) : Text :=
  path.names.getLast?.getD []

/-- Whether a null character stands in a path. No file has such a path. -/
def hasNull (path : Path) : Bool :=
  path.names.any fun name => name.contains (.char '\x00')

/-- The part of a name from its last full stop on. A full stop at either end of the
name starts no suffix. -/
def suffixOf (name : Text) : Text :=
  let afterStop := (name.reverse.takeWhile (· ≠ .char '.')).reverse
  let stem := name.length - afterStop.length
  if afterStop ≠ [] && 1 < stem then .char '.' :: afterStop else []

/-- The suffix of the last name of a path. -/
def suffix (path : Path) : Text :=
  suffixOf path.name

/-- The names of an absolute path without `..`, after those already walked (the
innermost first). The directory above the root is the root. -/
def walkNames (walked : List Text) : List Text → List Text
  | [] => walked.reverse
  | name :: rest => walkNames (if name = above then walked.tail else name :: walked) rest

/-- The canonical form of a path read from inside a directory where no path is a link:
absolute and without `..`. -/
def canonical (path currentDirectory : Path) : Path :=
  ⟨.slash, walkNames [] (currentDirectory.join path).names⟩

/-- Names without `..` are walked as they are. -/
theorem walkNames_of_not_mem {names : List Text} (plain : above ∉ names) (walked : List Text) :
    walkNames walked names = walked.reverse ++ names := by
  induction names generalizing walked with
  | nil => rw [walkNames, List.append_nil]
  | cons name rest ih =>
    obtain ⟨other, later⟩ := not_or.mp (mt List.mem_cons.mpr plain)
    rw [walkNames, if_neg (Ne.symm other), ih later, List.reverse_cons, List.append_assoc]
    rfl

/-- No `..` is left behind a walk. -/
theorem above_not_mem_walkNames {walked : List Text} (plain : above ∉ walked)
    (names : List Text) : above ∉ walkNames walked names := by
  induction names generalizing walked with
  | nil => rwa [walkNames, List.mem_reverse]
  | cons name rest ih =>
    rw [walkNames]
    split
    · exact ih fun member => plain (List.mem_of_mem_tail member)
    · rename_i other
      exact ih (mt List.mem_cons.mp (not_or.mpr ⟨Ne.symm other, plain⟩))

/-- What is canonical stays as it is. -/
theorem canonical_canonical (path currentDirectory : Path) :
    (path.canonical currentDirectory).canonical currentDirectory =
      path.canonical currentDirectory := by
  have plain := above_not_mem_walkNames (List.not_mem_nil) (currentDirectory.join path).names
  unfold canonical
  rw [join, if_pos (by rfl)]
  simp only [walkNames_of_not_mem plain, List.reverse_nil, List.nil_append]

end Path

end TexSource
