import TexSource.Proofs.FileTable.Paths

/-!
# File tables that mirror a file system

While the files do not change, what a file table knows about a file with a path is what the file
system says (`FileTable.Mirrors`): it is the same to ask the table for a document and to read and
parse the file anew (`FileTable.Mirrors.document_eq`). Entering and parsing files keeps a table so
(`FileTable.Develops`).
-/

namespace TexSource

namespace FileTable

variable {files : FileSystem} {table later : FileTable} {path : Path} {id : FileId}

/-- The document of the file with a path, read and parsed under a number as a table says. -/
def fetch (files : FileSystem) (table : FileTable) (path : Path) (id : FileId) :
    Except DocumentError Document :=
  match files.read path with
  | .error error => .error (.file error)
  | .ok contents =>
    (Document.parse (Text.decode contents) (Catcode.Table.ofOverrides table.catcodes)
      table.commands id).mapError .number

/-- What is known about files with paths is what a file system says. -/
structure Mirrors (files : FileSystem) (table : FileTable) : Prop where
  arises : table.Arises
  anonymous : table.path? 0 = none
  bytes : ∀ (id : FileId) (path : Path) (bytes : List UInt8), table.path? id = some path →
    (table.entry id).contents = some bytes → files.read path = .ok bytes
  parsed : ∀ (id : FileId) (path : Path) (document : Document), table.path? id = some path →
    (table.entry id).document = some document → fetch files table path id = .ok document

/-- The empty table mirrors every file system. -/
theorem Mirrors.empty (files : FileSystem) (workingDirectory : Path) (commands : CommandTable)
    (catcodes : Bindings Nat Catcode) :
    (FileTable.empty workingDirectory commands catcodes).Mirrors files := by
  have unknown (id : FileId) (path : Path) :
      (FileTable.empty workingDirectory commands catcodes).path? id ≠ some path := by
    intro known
    have below := lt_of_path? known
    obtain rfl : id = 0 := Nat.lt_one_iff.mp below
    cases known
  exact ⟨.empty .., rfl, fun id path _ known => absurd known (unknown id path),
    fun id path _ known => absurd known (unknown id path)⟩

/-- What a table parses files with, and where it looks for them, is as in another table. -/
structure SameSettings (table later : FileTable) : Prop where
  workingDirectory : later.workingDirectory = table.workingDirectory
  commands : later.commands = table.commands
  catcodes : later.catcodes = table.catcodes

namespace SameSettings

theorem refl (table : FileTable) : table.SameSettings table :=
  ⟨rfl, rfl, rfl⟩

/-- Settings that are the same at each step are the same. -/
theorem trans {last : FileTable} (first : table.SameSettings later)
    (second : later.SameSettings last) : table.SameSettings last :=
  ⟨second.workingDirectory.trans first.workingDirectory, second.commands.trans first.commands,
    second.catcodes.trans first.catcodes⟩

theorem symm (same : table.SameSettings later) : later.SameSettings table :=
  ⟨same.workingDirectory.symm, same.commands.symm, same.catcodes.symm⟩

/-- Equal settings fetch the same. -/
theorem fetch_eq (same : table.SameSettings later) (path : Path) (id : FileId) :
    fetch files later path id = fetch files table path id := by
  unfold fetch
  rw [same.commands, same.catcodes]

/-- Entering a path keeps the settings. -/
theorem enter (table : FileTable) (path : Path) (parent : Option FileId) :
    table.SameSettings (table.enter path parent).2 := by
  unfold FileTable.enter
  split
  · exact refl table
  · exact ⟨rfl, rfl, rfl⟩

/-- Reading a file keeps the settings. -/
theorem read (files : FileSystem) (table : FileTable) (id : FileId) :
    table.SameSettings (table.read files id).2 := by
  unfold FileTable.read
  dsimp only
  split
  · exact refl table
  · exact refl table
  · split
    · exact ⟨rfl, rfl, rfl⟩
    · exact refl table

end SameSettings

/-- Reading a file keeps all paths. -/
theorem path?_read (files : FileSystem) (table : FileTable) (id other : FileId) :
    (table.read files id).2.path? other = table.path? other := by
  unfold FileTable.read
  dsimp only
  split
  · rfl
  · rfl
  · split
    · refine path?_modify id ?_ other
      exact fun _ => rfl
    · rfl

/-- Only the entry of the given number is changed. -/
theorem entry_modify (table : FileTable) (id : FileId) (change : FileEntry → FileEntry)
    {other : FileId} (below : other < table.entries.size) :
    (table.modify id change).entry other =
      if (table.entry id).id = other then change (table.entry other) else table.entry other := by
  have here : table.entry other = table.entries[other] := by
    rw [FileTable.entry, Array.getElem?_eq_getElem below]
  have stored : (table.modify id change).entries[other]? =
      some (if (table.entry id).id = other then change table.entries[other]
        else table.entries[other]) := by
    rw [FileTable.modify, Array.getElem?_modify, Array.getElem?_eq_getElem below, apply_ite some]
    rfl
  rw [FileTable.entry, stored, here]

/-- The document of a file that was given contents is what these are parsed to. -/
theorem Sound.document_setSource {readable : List UInt8 → Prop} (sound : table.Sound readable)
    (files : FileSystem) {id : FileId} (known : (table.entry id).id = id)
    (contents : List UInt8) :
    ((table.setSource id contents).document files id).1 =
      (Document.parse (Text.decode contents) (Catcode.Table.ofOverrides table.catcodes)
        table.commands id).mapError .number := by
  have below : id < table.entries.size := by
    have number := sound.id_entry id
    rw [known] at number
    split at number
    · assumption
    · exact number ▸ sound.anonymous
  have given : (table.setSource id contents).entry id =
      { table.entry id with contents := some contents, document := none } := by
    rw [FileTable.setSource, entry_modify table id _ below, if_pos known]
  unfold FileTable.document FileTable.read
  rw [given]
  dsimp only
  rw [known]
  have settings : (table.setSource id contents).catcodes = table.catcodes ∧
      (table.setSource id contents).commands = table.commands := ⟨rfl, rfl⟩
  rw [settings.1, settings.2]
  cases Document.parse (Text.decode contents) (Catcode.Table.ofOverrides table.catcodes)
    table.commands id <;> rfl

/-- The files of a table with one more entry are that one and those before. -/
theorem entry_push {entry : FileEntry} (known :
    ({ table with entries := table.entries.push entry } : FileTable).path? id = some path) :
    ({ table with entries := table.entries.push entry } : FileTable).entry id = entry ∧
        id = table.entries.size ∨
      ({ table with entries := table.entries.push entry } : FileTable).entry id =
        table.entry id ∧ table.path? id = some path := by
  have below := lt_of_path? known
  rw [path?_push] at known
  by_cases last : id = table.entries.size
  · refine .inl ⟨?_, last⟩
    simp [FileTable.entry, last]
  · rw [if_neg last] at known
    have before := lt_of_path? known
    refine .inr ⟨?_, known⟩
    simp [FileTable.entry, Array.getElem?_push, last, Array.getElem?_eq_getElem before]

namespace Mirrors

variable (mirrors : table.Mirrors files)

include mirrors

/-- An entry with a path has its own number. -/
theorem number (known : table.path? id = some path) : (table.entry id).id = id := by
  rw [mirrors.arises.sound.id_entry, if_pos (lt_of_path? known)]

/-- What is known about a file may change, but not to something else than the file system says. -/
theorem modify {change : FileEntry → FileEntry} (arises : (table.modify id change).Arises)
    (kept : ∀ entry : FileEntry, (change entry).path = entry.path)
    (contents : ∀ (path : Path) (bytes : List UInt8), table.path? id = some path →
      (change (table.entry id)).contents = some bytes → files.read path = .ok bytes)
    (document : ∀ (path : Path) (document : Document), table.path? id = some path →
      (change (table.entry id)).document = some document →
        fetch files table path id = .ok document) :
    (table.modify id change).Mirrors files := by
  have settled (other : FileId) (path : Path) (known : table.path? other = some path) :
      (table.modify id change).entry other = table.entry other ∨
        other = id ∧ (table.modify id change).entry other = change (table.entry id) := by
    rw [entry_modify table id change (lt_of_path? known)]
    split
    · rename_i same
      rw [mirrors.arises.sound.id_entry] at same
      by_cases below : id < table.entries.size
      · rw [if_pos below] at same
        exact .inr ⟨same.symm, by rw [same]⟩
      · rw [if_neg below] at same
        rw [← same, mirrors.anonymous] at known
        cases known
    · exact .inl rfl
  refine ⟨arises, (path?_modify id kept 0).trans mirrors.anonymous, ?_, ?_⟩
  · intro other path bytes known found
    rw [path?_modify id kept] at known
    rcases settled other path known with same | ⟨rfl, same⟩
    · exact mirrors.bytes other path bytes known (same ▸ found)
    · exact contents path bytes known (same ▸ found)
  · intro other path parsed known found
    rw [path?_modify id kept] at known
    rcases settled other path known with same | ⟨rfl, same⟩
    · exact mirrors.parsed other path parsed known (same ▸ found)
    · exact document path parsed known (same ▸ found)

/-- The contents of a file are the ones that the file system gives. -/
theorem read_eq (known : table.path? id = some path) :
    (table.read files id).1 = files.read path := by
  have named : (table.entry id).path = some path := by rw [← path?_of_lt (lt_of_path? known), known]
  unfold FileTable.read
  dsimp only
  rw [named]
  cases cached : (table.entry id).contents with
  | some bytes => exact (mirrors.bytes id path bytes known cached).symm
  | none =>
    dsimp only
    cases files.read path <;> rfl

/-- Reading a file keeps the table a mirror. -/
theorem read (id : FileId) : (table.read files id).2.Mirrors files := by
  have arises := mirrors.arises.read files id
  unfold FileTable.read at arises ⊢
  dsimp only at arises ⊢
  cases cached : (table.entry id).contents with
  | some bytes => exact mirrors
  | none =>
    cases named : (table.entry id).path with
    | none => exact mirrors
    | some path =>
      rw [cached, named] at arises
      dsimp only at arises ⊢
      cases found : files.read path with
      | error error => exact mirrors
      | ok bytes =>
        rw [found] at arises
        refine mirrors.modify arises (fun _ => rfl) ?_ ?_
        · intro other contents known same
          rw [path?_of_lt (lt_of_path? known), named] at known
          cases known
          cases same
          exact found
        · exact fun other => mirrors.parsed id other

/-- **The document of a file is the one that is read and parsed anew.** -/
theorem document_eq (known : table.path? id = some path) :
    (table.document files id).1 = fetch files table path id := by
  have contents := mirrors.read_eq known
  have settings := SameSettings.read files table id
  have number := mirrors.number known
  unfold FileTable.document fetch
  dsimp only
  cases cached : (table.entry id).document with
  | some document => exact (mirrors.parsed id path document known cached).symm
  | none =>
    generalize table.read files id = result at contents settings
    obtain ⟨outcome, later⟩ := result
    dsimp only at contents settings ⊢
    rw [← contents, number]
    cases outcome with
    | error error => rfl
    | ok bytes =>
      dsimp only
      rw [settings.commands, settings.catcodes]
      cases Document.parse (Text.decode bytes) (Catcode.Table.ofOverrides table.catcodes)
        table.commands id <;> rfl

/-- Asking for a document keeps the table a mirror. -/
theorem document (id : FileId) : (table.document files id).2.Mirrors files := by
  have arises := mirrors.arises.document files id
  have later := mirrors.read id
  have paths := path?_read files table id
  have contents (path : Path) := @read_eq files table path id mirrors
  unfold FileTable.document at arises ⊢
  dsimp only at arises ⊢
  cases cached : (table.entry id).document with
  | some document => exact mirrors
  | none =>
    rw [cached] at arises
    dsimp only at arises ⊢
    generalize table.read files id = result at arises later paths contents
    obtain ⟨error | bytes, read⟩ := result
    · exact later
    · dsimp only at arises later paths contents ⊢
      cases parsed : Document.parse (Text.decode bytes)
        (Catcode.Table.ofOverrides read.catcodes) read.commands (table.entry id).id with
      | error error => exact later
      | ok document =>
        rw [parsed] at arises
        refine later.modify arises (fun _ => rfl) (fun other => later.bytes id other) ?_
        intro path other known same
        cases same
        rw [paths] at known
        rw [fetch, ← contents path known]
        dsimp only
        rw [mirrors.number known] at parsed
        rw [parsed]
        rfl

/-- Entering a path keeps the table a mirror. -/
theorem enter (path : Path) (parent : Option FileId) :
    (table.enter path parent).2.Mirrors files := by
  have arises := mirrors.arises.enter path parent
  unfold FileTable.enter at arises ⊢
  cases found : table.find? path with
  | some entry => exact mirrors
  | none =>
    rw [found] at arises
    refine ⟨arises, ?_, ?_, ?_⟩
    · exact (path?_push _).trans ((if_neg (Nat.ne_of_lt mirrors.arises.sound.anonymous)).trans
        mirrors.anonymous)
    · intro id other bytes known cached
      rcases entry_push known with ⟨last, _⟩ | ⟨same, known⟩
      · rw [last] at cached
        cases cached
      · exact mirrors.bytes id other bytes known (same ▸ cached)
    · intro id other document known cached
      rcases entry_push known with ⟨last, _⟩ | ⟨same, known⟩
      · rw [last] at cached
        cases cached
      · exact mirrors.parsed id other document known (same ▸ cached)

/-- Giving the source of the main document keeps the table a mirror. -/
theorem setSource (contents : List UInt8) : (table.setSource 0 contents).Mirrors files := by
  refine mirrors.modify (mirrors.arises.setSource 0 contents) (fun _ => rfl) ?_ ?_
  · intro path _ known
    rw [mirrors.anonymous] at known
    cases known
  · intro path _ known
    rw [mirrors.anonymous] at known
    cases known

/-- The directory of a file is that of its path. -/
theorem directory_eq (id : FileId) :
    table.directory id = ((table.path? id).map Path.parent).getD table.workingDirectory := by
  unfold directory
  by_cases below : id < table.entries.size
  · rw [path?_of_lt below]
    cases (table.entry id).path <;> rfl
  · have first := mirrors.anonymous
    have absent : table.entries[id]? = none := Array.getElem?_eq_none (Nat.not_lt.mp below)
    rw [path?_of_lt mirrors.arises.sound.anonymous] at first
    have same : table.entry id = table.entry 0 := by
      simp [FileTable.entry, absent, Array.getElem?_eq_getElem mirrors.arises.sound.anonymous]
    rw [same, first, path?, absent]
    rfl

end Mirrors

/-- A file is named by its path, and the standard input has a name of its own. -/
theorem name_eq (below : id < table.entries.size) :
    (table.entry id).name = ((table.path? id).map Path.toText).getD "<stdin>" := by
  rw [path?_of_lt below, FileEntry.name]
  cases (table.entry id).path <;> rfl

/-- A table comes from another by what a run does with it. -/
structure Develops (files : FileSystem) (table later : FileTable) : Prop where
  grown : table.Extends later
  settings : table.SameSettings later
  mirrors : table.Mirrors files → later.Mirrors files

namespace Develops

theorem refl (files : FileSystem) (table : FileTable) : table.Develops files table :=
  ⟨.refl table, .refl table, id⟩

/-- A table that develops at each step develops. -/
theorem trans {last : FileTable} (first : table.Develops files later)
    (second : later.Develops files last) : table.Develops files last :=
  ⟨first.grown.trans second.grown, first.settings.trans second.settings,
    fun mirrors => second.mirrors (first.mirrors mirrors)⟩

/-- Entering a path develops the table. -/
theorem enter (files : FileSystem) (table : FileTable) (path : Path) (parent : Option FileId) :
    table.Develops files (table.enter path parent).2 :=
  ⟨extends_enter table path parent, .enter table path parent, fun mirrors =>
    mirrors.enter path parent⟩

/-- Asking for a document develops the table. -/
theorem document (files : FileSystem) (table : FileTable) (id : FileId) :
    table.Develops files (table.document files id).2 := by
  refine ⟨extends_document files table id, ?_, fun mirrors => mirrors.document id⟩
  have read := SameSettings.read files table id
  unfold FileTable.document
  dsimp only
  cases (table.entry id).document with
  | some document => exact .refl table
  | none =>
    generalize table.read files id = result at read
    obtain ⟨error | bytes, later⟩ := result
    · exact read
    · dsimp only at read ⊢
      split
      · exact read
      · exact read.trans ⟨rfl, rfl, rfl⟩

/-- Giving the source of the main document develops the table. -/
theorem setSource (files : FileSystem) (table : FileTable) (contents : List UInt8) :
    table.Develops files (table.setSource 0 contents) :=
  ⟨extends_modify table 0 fun _ => rfl, ⟨rfl, rfl, rfl⟩, fun mirrors =>
    mirrors.setSource contents⟩

end Develops

/-- Where a name is looked for depends on the directories of the files around it only. -/
theorem resolve_congr {other : FileTable} {ancestors others : List FileId}
    (around : ancestors.map table.directory = others.map other.directory)
    (root : table.workingDirectory = other.workingDirectory) (name : Text)
    (extensions : List Text) :
    table.resolve files name ancestors extensions =
      other.resolve files name others extensions := by
  have search : table.searchPath ancestors = other.searchPath others := by
    rw [searchPath, searchPath, List.map_reverse, List.map_reverse, around, root]
  unfold resolve
  rw [search]

end FileTable

end TexSource
