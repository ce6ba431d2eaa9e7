import TexSource.Toml.Value

/-!
# TOML tables under construction

A document is a sequence of sections, each opened by a header, and its tables grow as
it is read. A table may be mentioned on the way to another one before it is defined,
but it is defined in one section only: by a header, or by the keys with several parts
of one section. A value written in one piece is closed for all time.
-/

namespace TexSource

namespace Toml

/-- A value as far as it was read. -/
inductive Draft where
  /-- A value written in one piece. -/
  | closed (value : Value)
  /-- A table, with the section that defines it, if it is defined yet. -/
  | table (definedIn : Option Nat) (fields : List (Text × Draft))
  /-- An array of tables, each opened by a header. The fields are those of the last
  one. -/
  | series (finished : List Value) (fields : List (Text × Draft))

/-- The fields of a table under construction, in the order of their first mention. -/
abbrev Fields := List (Text × Draft)

namespace Draft

mutual

/-- What a draft stands for when it is finished. -/
def value : Draft → Value
  | closed value => value
  | table _ fields => .table (valuesOf fields)
  | series finished fields => .array (finished ++ [.table (valuesOf fields)])

/-- What fields stand for when they are finished. -/
def valuesOf : List (Text × Draft) → List (Text × Value)
  | [] => []
  | (name, draft) :: rest => (name, value draft) :: valuesOf rest

end

end Draft

namespace Fields

/-- The field with a name. -/
def get? (fields : Fields) (name : Text) : Option Draft :=
  (fields.find? fun field => field.1 = name).map Prod.snd

/-- Sets a field, at its place if it is there and at the end otherwise. -/
def set (fields : Fields) (name : Text) (draft : Draft) : Fields :=
  if (get? fields name).isSome then
    fields.map fun field => if field.1 = name then (name, draft) else field
  else fields ++ [(name, draft)]

/-- Changes the table behind the keys of a header, where an array of tables stands for
its last one. -/
def within (change : Fields → Option Fields) : List Text → Fields → Option Fields
  | [], fields => change fields
  | name :: rest, fields =>
    match get? fields name with
    | none => (within change rest []).map fun inner => set fields name (.table none inner)
    | some (.table definedIn inner) =>
      (within change rest inner).map fun inner => set fields name (.table definedIn inner)
    | some (.series finished inner) =>
      (within change rest inner).map fun inner => set fields name (.series finished inner)
    | some (.closed _) => none

/-- Changes the table behind the first parts of a key. A section thereby defines the
tables on the way, which must not be defined by another one. -/
def along (current : Nat) (change : Fields → Option Fields) :
    List Text → Fields → Option Fields
  | [], fields => change fields
  | name :: rest, fields =>
    match get? fields name with
    | none =>
      (along current change rest []).map fun inner =>
        set fields name (.table (some current) inner)
    | some (.table definedIn inner) =>
      if definedIn.all (· = current) then
        (along current change rest inner).map fun inner =>
          set fields name (.table (some current) inner)
      else none
    | some _ => none

/-- Adds a field, unless its name is taken already. -/
def add (name : Text) (value : Value) (fields : Fields) : Option Fields :=
  if (get? fields name).isSome then none else some (fields ++ [(name, .closed value)])

/-- Adds the value of a key of one or more parts in a section. -/
def assign (current : Nat) (key : List Text) (value : Value) (fields : Fields) :
    Option Fields :=
  along current (add (key.getLast?.getD []) value) key.dropLast fields

/-- Opens a table by a header. It may be there already through the headers of tables in it. -/
def openTable (current : Nat) (name : Text) (fields : Fields) : Option Fields :=
  match get? fields name with
  | none => some (set fields name (.table (some current) []))
  | some (.table none inner) => some (set fields name (.table (some current) inner))
  | some _ => none

/-- Adds a table to an array of tables by a header. -/
def openNext (name : Text) (fields : Fields) : Option Fields :=
  match get? fields name with
  | none => some (set fields name (.series [] []))
  | some (.series finished inner) =>
    some (set fields name (.series (finished ++ [.table (Draft.valuesOf inner)]) []))
  | some _ => none

end Fields

end Toml

end TexSource
