import TexSource.Catcode
import TexSource.Layered

/-!
# Category code tables

A table assigns category codes to code points, with assignments that are local to
groups. A glyph without an assignment keeps its initial category code.
-/

namespace TexSource

namespace Catcode

/-- Assignments of category codes to code points, in layers. -/
abbrev Table := Layered Nat Catcode

namespace Table

/-- A table with the given assignments in its bottom layer. -/
def ofOverrides (overrides : Bindings Nat Catcode) : Table :=
  Layered.ofBindings overrides

/-- The table in which every glyph has its initial category code. -/
def standard : Table :=
  ofOverrides []

/-- The category of a glyph: the one that it is assigned, or else its initial one. -/
def classify (table : Table) (glyph : Glyph) : Catcode :=
  (table.lookup glyph.code).getD (initial glyph)

end Table

end Catcode

end TexSource
