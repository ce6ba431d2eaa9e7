import TexSource.Proofs.FileTable

/-!
# Files and their paths

A file table has one entry for each canonical path (`FileTable.Arises.distinct`), and what is done
with it adds entries but leaves the paths of the known ones as they are (`FileTable.Extends`). So
a file is known by its number as well as by its path.
-/

namespace TexSource

namespace FileTable

/-- The canonical path of the file with a number, if there is such a file and it has a path. -/
def path? (table : FileTable) (id : FileId) : Option Path :=
  (table.entries[id]?).bind FileEntry.path

variable {table later : FileTable} {path : Path} {parent : Option FileId} {id : FileId}

theorem path?_of_lt (below : id < table.entries.size) :
    table.path? id = (table.entry id).path := by
  rw [path?, FileTable.entry, Array.getElem?_eq_getElem below]
  rfl

theorem lt_of_path? (known : table.path? id = some path) : id < table.entries.size := by
  obtain ⟨entry, found, _⟩ := Option.bind_eq_some_iff.mp known
  exact (Array.getElem?_eq_some_iff.mp found).1

/-- The entry of a path is found under a number with that path. -/
theorem exists_of_find? {entry : FileEntry} (found : table.find? path = some entry) :
    ∃ id : Nat, table.entries[id]? = some entry ∧ table.path? id = some path := by
  obtain ⟨id, below, rfl⟩ := Array.mem_iff_getElem.mp (Array.mem_of_find?_eq_some found)
  have same := Array.find?_some found
  have here := Array.getElem?_eq_getElem below
  exact ⟨id, here, by simpa [path?, here] using same⟩

theorem path?_ne_of_find? (absent : table.find? path = none) (id : FileId) :
    table.path? id ≠ some path := by
  intro known
  obtain ⟨entry, found, same⟩ := Option.bind_eq_some_iff.mp known
  obtain ⟨below, rfl⟩ := Array.getElem?_eq_some_iff.mp found
  have other := Array.find?_eq_none.mp absent _ (Array.getElem_mem below)
  exact other (by simpa using same)

/-- A file table comes from another in which fewer files were known. -/
structure Extends (table later : FileTable) : Prop where
  size_le : table.entries.size ≤ later.entries.size
  path? (id : FileId) (below : id < table.entries.size) : later.path? id = table.path? id

namespace Extends

theorem refl (table : FileTable) : table.Extends table :=
  ⟨Nat.le_refl _, fun _ _ => rfl⟩

theorem trans {last : FileTable} (first : table.Extends later) (second : later.Extends last) :
    table.Extends last :=
  ⟨Nat.le_trans first.size_le second.size_le, fun id below =>
    (second.path? id (Nat.lt_of_lt_of_le below first.size_le)).trans (first.path? id below)⟩

end Extends

/-- What is known about a file is changed without a change of its path. -/
theorem path?_modify (id : FileId) {change : FileEntry → FileEntry}
    (kept : ∀ entry : FileEntry, (change entry).path = entry.path) (other : FileId) :
    (table.modify id change).path? other = table.path? other := by
  unfold path? FileTable.modify
  dsimp only
  rw [Array.getElem?_modify]
  split
  · cases table.entries[other]? with
    | none => rfl
    | some entry => exact kept entry
  · rfl

theorem extends_modify (table : FileTable) (id : FileId) {change : FileEntry → FileEntry}
    (kept : ∀ entry : FileEntry, (change entry).path = entry.path) :
    table.Extends (table.modify id change) :=
  ⟨Nat.le_of_eq (by simp [FileTable.modify]), fun other _ => path?_modify id kept other⟩

theorem path?_push (entry : FileEntry) :
    ({ table with entries := table.entries.push entry } : FileTable).path? id =
      if id = table.entries.size then entry.path else table.path? id := by
  unfold path?
  dsimp only
  rw [Array.getElem?_push]
  split <;> rfl

theorem extends_enter (table : FileTable) (path : Path) (parent : Option FileId) :
    table.Extends (table.enter path parent).2 := by
  unfold FileTable.enter
  split
  · exact .refl table
  · refine ⟨by simp, fun id below => ?_⟩
    exact (path?_push _).trans (if_neg (Nat.ne_of_lt below))

theorem extends_read (files : FileSystem) (table : FileTable) (id : FileId) :
    table.Extends (table.read files id).2 := by
  unfold FileTable.read
  dsimp only
  split
  · exact .refl table
  · exact .refl table
  · split
    · exact extends_modify table id fun _ => rfl
    · exact .refl table

theorem extends_document (files : FileSystem) (table : FileTable) (id : FileId) :
    table.Extends (table.document files id).2 := by
  have first := extends_read files table id
  unfold FileTable.document
  dsimp only
  split
  · exact .refl table
  · split
    · rename_i failed
      rwa [failed] at first
    · rename_i found
      rw [found] at first
      split
      · exact first
      · exact first.trans (extends_modify _ id fun _ => rfl)

/-- No two files have the same path. -/
def Distinct (table : FileTable) : Prop :=
  ∀ first second path, table.path? first = some path → table.path? second = some path →
    first = second

theorem Distinct.congr (distinct : table.Distinct) (same : ∀ id, later.path? id = table.path? id) :
    later.Distinct := by
  intro first second path knownFirst knownSecond
  rw [same] at knownFirst knownSecond
  exact distinct first second path knownFirst knownSecond

theorem Distinct.enter (distinct : table.Distinct) (path : Path) (parent : Option FileId) :
    (table.enter path parent).2.Distinct := by
  unfold FileTable.enter
  cases known : table.find? path with
  | some entry => exact distinct
  | none =>
    intro first second other knownFirst knownSecond
    have fresh := path?_ne_of_find? known
    rw [path?_push] at knownFirst knownSecond
    dsimp only at knownFirst knownSecond
    split at knownFirst <;> split at knownSecond
    · rename_i same last
      exact same.trans last.symm
    · cases knownFirst
      exact absurd knownSecond (fresh second)
    · cases knownSecond
      exact absurd knownFirst (fresh first)
    · exact distinct first second other knownFirst knownSecond

theorem Distinct.read (distinct : table.Distinct) (files : FileSystem) (id : FileId) :
    (table.read files id).2.Distinct := by
  unfold FileTable.read
  dsimp only
  split
  · exact distinct
  · exact distinct
  · split
    · exact distinct.congr (path?_modify id fun _ => rfl)
    · exact distinct

theorem Distinct.document (distinct : table.Distinct) (files : FileSystem) (id : FileId) :
    (table.document files id).2.Distinct := by
  have first := distinct.read files id
  unfold FileTable.document
  dsimp only
  split
  · exact distinct
  · split
    · rename_i failed
      rwa [failed] at first
    · rename_i found
      rw [found] at first
      split
      · exact first
      · exact first.congr (path?_modify id fun _ => rfl)

/-- **There is one entry for each canonical path.** -/
theorem Arises.distinct (arises : table.Arises) : table.Distinct := by
  induction arises with
  | empty workingDirectory commands catcodes =>
    intro first second path known _
    obtain ⟨entry, found, pathOf⟩ := Option.bind_eq_some_iff.mp known
    obtain ⟨below, rfl⟩ := Array.getElem?_eq_some_iff.mp found
    obtain rfl : first = 0 := Nat.lt_one_iff.mp below
    cases pathOf
  | enter _ path parent distinct => exact distinct.enter path parent
  | setSource _ id contents distinct => exact distinct.congr (path?_modify id fun _ => rfl)
  | read _ files id distinct => exact distinct.read files id
  | document _ files id distinct => exact distinct.document files id

/-- A file that is known is entered under its number. -/
theorem Arises.id_enter (arises : table.Arises) (known : table.path? id = some path)
    (parent : Option FileId) : (table.enter path parent).1.id = id := by
  unfold FileTable.enter
  cases found : table.find? path with
  | none => exact absurd known (path?_ne_of_find? found id)
  | some entry =>
    obtain ⟨other, here, same⟩ := exists_of_find? found
    rw [arises.distinct id other path known same]
    exact (arises.sound.entries other entry here).number

/-- Nothing changes where a file is entered that is known. -/
theorem enter_of_known (known : table.path? id = some path) (parent : Option FileId) :
    (table.enter path parent).2 = table := by
  unfold FileTable.enter
  cases found : table.find? path with
  | none => exact absurd known (path?_ne_of_find? found id)
  | some entry => rfl

theorem path_enter (table : FileTable) (path : Path) (parent : Option FileId) :
    (table.enter path parent).1.path = some path := by
  unfold FileTable.enter
  cases found : table.find? path with
  | none => rfl
  | some entry => simpa using Array.find?_some found

/-- A file is entered under a number with its path. -/
theorem Sound.path?_enter {readable : List UInt8 → Prop} (sound : table.Sound readable)
    (path : Path) (parent : Option FileId) :
    (table.enter path parent).2.path? (table.enter path parent).1.id = some path := by
  unfold FileTable.enter
  cases found : table.find? path with
  | none => exact (path?_push _).trans (if_pos rfl)
  | some entry =>
    obtain ⟨other, here, same⟩ := exists_of_find? found
    rw [(sound.entries other entry here).number]
    exact same

theorem Arises.path?_enter (arises : table.Arises) (path : Path) (parent : Option FileId) :
    (table.enter path parent).2.path? (table.enter path parent).1.id = some path :=
  arises.sound.path?_enter path parent

/-- Among known files, the one that is entered is the one with its path. -/
theorem Arises.id_enter_mem_iff (arises : table.Arises) {known : List FileId}
    (below : ∀ id ∈ known, id < table.entries.size) (path : Path) (parent : Option FileId) :
    (table.enter path parent).1.id ∈ known ↔
      ∃ id ∈ known, (table.entry id).path = some path := by
  constructor
  · intro member
    refine ⟨_, member, ?_⟩
    rw [← path?_of_lt (below _ member), ← (extends_enter table path parent).path? _
      (below _ member)]
    exact arises.sound.path?_enter path parent
  · rintro ⟨id, member, same⟩
    rw [← path?_of_lt (below id member)] at same
    rwa [arises.id_enter same parent]

end FileTable

end TexSource
