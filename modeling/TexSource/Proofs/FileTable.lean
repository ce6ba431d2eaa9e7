import TexSource.FileTable

/-!
# What a file table knows

Every entry of a file table stands at the index that is its number, and a document in it is
what the contents of a file are parsed to (`FileTable.Sound`). Everything that is done with a
file table keeps this: entering files, giving them contents, reading them, and parsing them.
So it holds of every table that arises in a run (`FileTable.Arises.sound`).
-/

namespace TexSource

/-- What is known about the file with a number: its contents are such as can be read, and its
document comes from parsing such contents. -/
structure FileEntry.Sound (readable : List UInt8 → Prop) (catcodes : Bindings Nat Catcode)
    (commands : CommandTable) (id : FileId) (entry : FileEntry) : Prop where
  number : entry.id = id
  contents : ∀ bytes ∈ entry.contents, readable bytes
  document : ∀ document ∈ entry.document, ∃ bytes, readable bytes ∧
    Document.parse (Text.decode bytes) (Catcode.Table.ofOverrides catcodes) commands id =
      .ok document

namespace FileTable

/-- The entries of a table stand at the indices that are their numbers, and what is known
about their files is sound. -/
structure Sound (readable : List UInt8 → Prop) (table : FileTable) : Prop where
  anonymous : 0 < table.entries.size
  entries : ∀ (index : Nat) (entry : FileEntry), table.entries[index]? = some entry →
    entry.Sound readable table.catcodes table.commands index

variable {readable : List UInt8 → Prop} {table : FileTable}

namespace Sound

theorem empty (readable : List UInt8 → Prop) (workingDirectory : Path) (commands : CommandTable)
    (catcodes : Bindings Nat Catcode) :
    (FileTable.empty workingDirectory commands catcodes).Sound readable where
  anonymous := Nat.one_pos
  entries index entry found := by
    obtain ⟨below, rfl⟩ := Array.getElem?_eq_some_iff.mp found
    obtain rfl : index = 0 := Nat.lt_one_iff.mp below
    exact ⟨rfl, nofun, nofun⟩

/-- The entry that a number leads to stands at the index that is the entry's number. -/
theorem entry (sound : table.Sound readable) (id : FileId) :
    table.entries[(table.entry id).id]? = some (table.entry id) ∧
      (table.entry id).Sound readable table.catcodes table.commands (table.entry id).id := by
  have stands : ∃ index : Nat, table.entries[index]? = some (table.entry id) := by
    unfold FileTable.entry
    cases found : table.entries[id]? with
    | some entry => exact ⟨id, found⟩
    | none =>
      have first := Array.getElem?_eq_getElem sound.anonymous
      exact ⟨0, by rw [first]; rfl⟩
  obtain ⟨index, found⟩ := stands
  have here := sound.entries index _ found
  rw [here.number]
  exact ⟨found, here⟩

/-- Numbers that were not given out lead to the anonymous input. -/
theorem id_entry (sound : table.Sound readable) (id : FileId) :
    (table.entry id).id = if id < table.entries.size then id else 0 := by
  unfold FileTable.entry
  split
  · rename_i entry found
    obtain ⟨below, _⟩ := Array.getElem?_eq_some_iff.mp found
    rw [if_pos below]
    exact (sound.entries id entry found).number
  · rename_i absent
    have first := Array.getElem?_eq_getElem sound.anonymous
    rw [if_neg (Nat.not_lt.mpr (Array.getElem?_eq_none_iff.mp absent)), first]
    exact (sound.entries 0 _ first).number

/-- The number of a file that was entered leads to its entry. -/
theorem enter (sound : table.Sound readable) (path : Path) (parent : Option FileId) :
    (table.enter path parent).2.Sound readable ∧
      ((table.enter path parent).2.entry (table.enter path parent).1.id).id =
        (table.enter path parent).1.id := by
  unfold FileTable.enter
  cases known : table.find? path with
  | some entry =>
    obtain ⟨index, below, rfl⟩ := Array.mem_iff_getElem.mp (Array.mem_of_find?_eq_some known)
    have found := Array.getElem?_eq_getElem below
    have same := (sound.entries index _ found).number
    refine ⟨sound, ?_⟩
    dsimp only
    rw [FileTable.entry, same, found]
    exact same
  | none =>
    refine ⟨⟨?_, ?_⟩, ?_⟩
    · simp
    · intro index entry found
      rw [Array.getElem?_push] at found
      split at found
      · rename_i last
        cases found
        exact ⟨last.symm, nofun, nofun⟩
      · exact sound.entries index entry found
    · simp [FileTable.entry]

/-- A change of what is known about one file keeps a table sound if it keeps that entry
sound. -/
theorem modify (sound : table.Sound readable) (id : FileId) {change : FileEntry → FileEntry}
    (kept : (table.entry id).Sound readable table.catcodes table.commands (table.entry id).id →
      (change (table.entry id)).Sound readable table.catcodes table.commands
        (table.entry id).id) :
    (table.modify id change).Sound readable where
  anonymous := by simpa [FileTable.modify] using sound.anonymous
  entries index entry found := by
    obtain ⟨present, here⟩ := sound.entry id
    rw [FileTable.modify, Array.getElem?_modify] at found
    split at found
    · rename_i same
      subst same
      rw [present] at found
      cases found
      exact kept here
    · exact sound.entries index entry found

theorem setSource (sound : table.Sound readable) (id : FileId) {contents : List UInt8}
    (holds : readable contents) : (table.setSource id contents).Sound readable := by
  apply sound.modify
  intro here
  refine ⟨here.number, ?_, nofun⟩
  intro bytes same
  cases same
  exact holds

end Sound

/-- The files that can be read have readable contents. -/
def Reads (files : FileSystem) (readable : List UInt8 → Prop) : Prop :=
  ∀ path contents, files.read path = .ok contents → readable contents

variable {files : FileSystem}

/-- Reading a file yields readable contents, and changes neither the numbers of files nor
what they are parsed with. -/
theorem Sound.read (sound : table.Sound readable) (reads : Reads files readable) (id : FileId) :
    (table.read files id).2.Sound readable ∧
      (table.read files id).2.catcodes = table.catcodes ∧
      (table.read files id).2.commands = table.commands ∧
      ((table.read files id).2.entry id).id = (table.entry id).id ∧
      ∀ contents, (table.read files id).1 = .ok contents → readable contents := by
  obtain ⟨_, here⟩ := sound.entry id
  unfold FileTable.read
  dsimp only
  split
  · rename_i contents known
    refine ⟨sound, rfl, rfl, rfl, ?_⟩
    intro other same
    cases same
    exact here.contents contents known
  · exact ⟨sound, rfl, rfl, rfl, nofun⟩
  · rename_i path _ _
    split
    · rename_i contents found
      have holds := reads path contents found
      have later : (table.modify id fun entry =>
          { entry with contents := some contents }).Sound readable := by
        apply sound.modify
        intro here
        refine ⟨here.number, ?_, here.document⟩
        intro bytes same
        cases same
        exact holds
      refine ⟨later, rfl, rfl, ?_, ?_⟩
      · rw [later.id_entry, sound.id_entry, FileTable.modify, Array.size_modify]
      · intro other same
        cases same
        exact holds
    · exact ⟨sound, rfl, rfl, rfl, nofun⟩

/-- Parsing a file yields a document of readable contents. -/
theorem Sound.document (sound : table.Sound readable) (reads : Reads files readable)
    (id : FileId) :
    (table.document files id).2.Sound readable ∧
      ∀ document, (table.document files id).1 = .ok document → ∃ bytes, readable bytes ∧
        Document.parse (Text.decode bytes) (Catcode.Table.ofOverrides table.catcodes)
          table.commands (table.entry id).id = .ok document := by
  obtain ⟨_, here⟩ := sound.entry id
  unfold FileTable.document
  dsimp only
  split
  · rename_i document known
    refine ⟨sound, ?_⟩
    intro other same
    cases same
    exact here.document document known
  · obtain ⟨later, catcodes, commands, numbered, holds⟩ := sound.read reads id
    split
    · rename_i error table failed
      rw [failed] at later
      exact ⟨later, nofun⟩
    · rename_i contents table found
      rw [found] at later catcodes commands numbered holds
      dsimp only at later catcodes commands numbered
      split
      · exact ⟨later, nofun⟩
      · rename_i document parsed
        have origin := And.intro (holds contents rfl) parsed
        refine ⟨later.modify id fun here => ⟨here.number, here.contents, ?_⟩, ?_⟩
        · intro other same
          cases same
          rw [numbered]
          exact ⟨contents, origin⟩
        · intro other same
          cases same
          rw [catcodes, commands] at origin
          exact ⟨contents, origin⟩

/-- The category codes that files are parsed with stay as they are. -/
theorem catcodes_enter (table : FileTable) (path : Path) (parent : Option FileId) :
    (table.enter path parent).2.catcodes = table.catcodes := by
  unfold FileTable.enter
  split <;> rfl

theorem catcodes_document (files : FileSystem) (table : FileTable) (id : FileId) :
    (table.document files id).2.catcodes = table.catcodes := by
  have same : (table.read files id).2.catcodes = table.catcodes := by
    unfold FileTable.read
    dsimp only
    split
    · rfl
    · rfl
    · split <;> rfl
  unfold FileTable.document
  dsimp only
  split
  · rfl
  · split
    · rename_i later failed
      rw [failed] at same
      exact same
    · rename_i contents later found
      rw [found] at same
      split <;> exact same

/-- The file tables that can arise: from one without files, by entering files, giving them
contents, reading them, and parsing them. -/
inductive Arises : FileTable → Prop where
  | empty (workingDirectory : Path) (commands : CommandTable) (catcodes : Bindings Nat Catcode) :
      Arises (FileTable.empty workingDirectory commands catcodes)
  | enter {table : FileTable} (earlier : Arises table) (path : Path) (parent : Option FileId) :
      Arises (table.enter path parent).2
  | setSource {table : FileTable} (earlier : Arises table) (id : FileId)
      (contents : List UInt8) : Arises (table.setSource id contents)
  | read {table : FileTable} (earlier : Arises table) (files : FileSystem) (id : FileId) :
      Arises (table.read files id).2
  | document {table : FileTable} (earlier : Arises table) (files : FileSystem) (id : FileId) :
      Arises (table.document files id).2

/-- **Whatever is done with a file table, it stays sound.** -/
theorem Arises.sound (arises : table.Arises) : table.Sound fun _ => True := by
  have reads : ∀ files, Reads files fun _ => True := fun _ _ _ _ => trivial
  induction arises with
  | empty workingDirectory commands catcodes => exact .empty _ workingDirectory commands catcodes
  | enter _ path parent sound => exact (sound.enter path parent).1
  | setSource _ id contents sound => exact sound.setSource id trivial
  | read _ files id sound => exact (sound.read (reads files) id).1
  | document _ files id sound => exact (sound.document (reads files) id).1

/-- Loading a main file is entering and parsing it. -/
theorem Arises.load (arises : table.Arises) (files : FileSystem) (path : Path) :
    (table.load files path).2.Arises := by
  unfold FileTable.load FileTable.register
  cases canonicalPath files path with
  | error error => exact arises
  | ok canonical =>
    have entered := arises.enter canonical none
    have parsed := entered.document files (table.enter canonical none).1.id
    simp only [bind, Except.bind, pure, Except.pure]
    split
    all_goals
      rename_i result
      rw [result] at parsed
      exact parsed

end FileTable

end TexSource
