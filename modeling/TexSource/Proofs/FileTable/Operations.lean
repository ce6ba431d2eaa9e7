import Mathlib.Logic.Relation
import TexSource.Proofs.FileTable.Mirrors

/-!
# Sequences of operations on a file table

What an operation does with a file table is a few single changes (`FileTable.Changes`): a file is
entered, or something about one file is replaced. A change keeps what a cached document has to do
with the contents of its file (`FileTable.Kept.changes`), so all operations do, in whatever order
they come (`FileTable.consistent_performAll`).
-/

namespace TexSource

namespace FileTable

/-- What can be done with a file table. -/
inductive Operation where
  | register (path : Path) (parent : Option FileId)
  | setSource (id : FileId) (contents : List UInt8)
  | read (id : FileId)
  | document (id : FileId)
  | load (path : Path)

/-- The table behind an operation, whether the operation succeeds or fails. -/
def perform (files : FileSystem) (table : FileTable) : Operation → FileTable
  | .register path parent =>
    match table.register files path parent with
    | .ok (_, later) => later
    | .error _ => table
  | .setSource id contents => table.setSource id contents
  | .read id => (table.read files id).2
  | .document id => (table.document files id).2
  | .load path => (table.load files path).2

/-- The table behind a sequence of operations. -/
def performAll (files : FileSystem) (table : FileTable) (operations : List Operation) : FileTable :=
  operations.foldl (perform files) table

/-- An operation is about the file with a number. A number that was not given out stands for the
anonymous input. -/
def Operation.Concerns (files : FileSystem) (table : FileTable) : Operation → FileId → Prop
  | register _ _, _ => False
  | setSource target _, id => id = if target < table.entries.size then target else 0
  | read target, id => id = if target < table.entries.size then target else 0
  | document target, id => id = if target < table.entries.size then target else 0
  | load path, id => ∃ canonical, canonicalPath files path = .ok canonical ∧
      table.path? id = some canonical

variable {files : FileSystem} {table later : FileTable} {path canonical : Path}
  {parent : Option FileId} {id : FileId}

/-- What is found is the canonical path. -/
theorem canonicalPath_eq (found : canonicalPath files path = .ok canonical) :
    canonical = files.canonical path := by
  unfold canonicalPath at found
  split at found
  · cases found
  · cases found
    rfl

/-- A single change of what is known about the file with a number. -/
inductive Changes (files : FileSystem) (table : FileTable) : FileId → FileTable → Prop where
  | entered (canonical : Path) (parent : Option FileId) (fresh : table.find? canonical = none)
      (normal : files.canonical canonical = canonical) :
      Changes files table table.entries.size (table.enter canonical parent).2
  | given (id : FileId) (contents : List UInt8) :
      Changes files table (table.entry id).id (table.setSource id contents)
  | taken (id : FileId) (bytes : List UInt8) (missing : (table.entry id).contents = none) :
      Changes files table (table.entry id).id
        (table.modify id fun entry => { entry with contents := some bytes })
  | parsed (id : FileId) {bytes : List UInt8} {document : Document}
      (known : (table.entry id).contents = some bytes)
      (parsed : Document.parse (Text.decode bytes) (Catcode.Table.ofOverrides table.catcodes)
        table.commands (table.entry id).id = .ok document) :
      Changes files table (table.entry id).id
        (table.modify id fun entry => { entry with document := some document })

/-- Of the known files, their paths and their parents none is lost. -/
structure Retains (table later : FileTable) : Prop extends table.Extends later where
  parent (id : FileId) (below : id < table.entries.size) :
    (later.entry id).parent = (table.entry id).parent

theorem Retains.refl (table : FileTable) : table.Retains table :=
  ⟨.refl table, fun _ _ => rfl⟩

/-- What is retained at each step is retained. -/
theorem Retains.trans {last : FileTable} (first : table.Retains later)
    (second : later.Retains last) : table.Retains last :=
  ⟨first.toExtends.trans second.toExtends, fun id below =>
    (second.parent id (Nat.lt_of_lt_of_le below first.size_le)).trans (first.parent id below)⟩

/-- Changing an entry adds none. -/
theorem size_modify (table : FileTable) (id : FileId) (change : FileEntry → FileEntry) :
    (table.modify id change).entries.size = table.entries.size :=
  Array.size_modify

/-- An entry that keeps its path and parent may change. -/
theorem retains_modify (table : FileTable) (id : FileId) {change : FileEntry → FileEntry}
    (path : ∀ entry : FileEntry, (change entry).path = entry.path)
    (parent : ∀ entry : FileEntry, (change entry).parent = entry.parent) :
    table.Retains (table.modify id change) := by
  refine ⟨extends_modify table id path, fun other below => ?_⟩
  rw [entry_modify table id change below]
  split
  · exact parent _
  · rfl

/-- A file that is entered does not disturb those that are known. -/
theorem entry_enter (table : FileTable) (path : Path) (parent : Option FileId)
    (below : id < table.entries.size) : (table.enter path parent).2.entry id = table.entry id := by
  unfold enter
  split
  · rfl
  · simp [FileTable.entry, Array.getElem?_push, Nat.ne_of_lt below, Array.getElem?_eq_getElem below]

/-- A file that was not known is entered behind all others, and nothing is known about it but its
path and its parent. -/
theorem entry_enter_fresh (fresh : table.find? path = none) (parent : Option FileId) :
    (table.enter path parent).2.entries.size = table.entries.size + 1 ∧
      (table.enter path parent).2.entry table.entries.size =
        ⟨table.entries.size, some path, parent, none, none⟩ := by
  unfold enter
  rw [fresh]
  simp [FileTable.entry]

theorem SameSettings.changes (change : Changes files table id later) :
    table.SameSettings later := by
  cases change with
  | entered canonical parent => exact .enter table canonical parent
  | given | taken | parsed => exact ⟨rfl, rfl, rfl⟩

namespace Changes

/-- A change of one file leaves all others as they are. -/
theorem entry_eq (change : Changes files table id later) {other : FileId} (apart : other ≠ id)
    (below : other < table.entries.size) : later.entry other = table.entry other := by
  cases change with
  | entered canonical parent => exact entry_enter table canonical parent below
  | given | taken | parsed => exact (entry_modify table _ _ below).trans (if_neg (Ne.symm apart))

/-- Changes retain paths and parents. -/
theorem retains (change : Changes files table id later) : table.Retains later := by
  cases change with
  | entered canonical parent =>
    exact ⟨extends_enter table canonical parent, fun other below => by
      rw [entry_enter table canonical parent below]⟩
  | given | taken | parsed => exact retains_modify table _ (fun _ => rfl) fun _ => rfl

end Changes

/-- What every operation keeps of a file table. -/
structure Kept (files : FileSystem) (table : FileTable) : Prop where
  sound : table.Sound fun _ => True
  distinct : table.Distinct
  anonymous : table.path? 0 = none
  named : ∀ id, 0 < id → id < table.entries.size → ∃ path, table.path? id = some path ∧
    files.canonical path = path
  /-- A cached document is that of the contents. -/
  current : ∀ id document, id < table.entries.size → (table.entry id).document = some document →
    ∃ bytes, (table.entry id).contents = some bytes ∧
      Document.parse (Text.decode bytes) (Catcode.Table.ofOverrides table.catcodes)
        table.commands id = .ok document

namespace Kept

theorem empty (files : FileSystem) (workingDirectory : Path) (commands : CommandTable)
    (catcodes : Bindings Nat Catcode) :
    (FileTable.empty workingDirectory commands catcodes).Kept files where
  sound := .empty _ workingDirectory commands catcodes
  distinct := (Arises.empty workingDirectory commands catcodes).distinct
  anonymous := rfl
  named id above below := by
    obtain rfl : id = 0 := Nat.lt_one_iff.mp below
    cases above
  current id document below cached := by
    obtain rfl : id = 0 := Nat.lt_one_iff.mp below
    cases cached

variable (kept : table.Kept files)

include kept

theorem id_eq (below : id < table.entries.size) : (table.entry id).id = id := by
  rw [kept.sound.id_entry, if_pos below]

theorem id_lt (id : FileId) : (table.entry id).id < table.entries.size := by
  rw [kept.sound.id_entry]
  split
  · assumption
  · exact kept.sound.anonymous

/-- An entry is found by its own number. -/
theorem entry_id (id : FileId) : table.entry (table.entry id).id = table.entry id := by
  rw [FileTable.entry, (kept.sound.entry id).1]

/-- What a number leads to is changed, also if the number was not given out. -/
theorem entry_modify_self (id : FileId) (change : FileEntry → FileEntry) :
    (table.modify id change).entry id = change (table.entry id) := by
  by_cases below : id < table.entries.size
  · rw [entry_modify table id change below, if_pos (kept.id_eq below)]
  · have first : table.entry id = table.entry 0 := by
      rw [← kept.entry_id id, kept.sound.id_entry, if_neg below]
    have firstLater : (table.modify id change).entry id = (table.modify id change).entry 0 := by
      simp only [FileTable.entry, Array.getElem?_eq_none
        (Nat.le_trans (Nat.le_of_eq (size_modify table id change)) (Nat.not_lt.mp below))]
      rw [Array.getElem?_eq_getElem (by rw [size_modify]; exact kept.sound.anonymous)]
      rfl
    have number := kept.sound.id_entry id
    rw [if_neg below] at number
    rw [firstLater, entry_modify table id change kept.sound.anonymous, if_pos number, first]

/-- Entering a canonical path keeps the table. -/
theorem enter (canonical : Path) (parent : Option FileId)
    (normal : files.canonical canonical = canonical) :
    (table.enter canonical parent).2.Kept files := by
  have settings := SameSettings.enter table canonical parent
  cases fresh : table.find? canonical with
  | some entry =>
    have same : (table.enter canonical parent).2 = table := by rw [FileTable.enter, fresh]
    rwa [same]
  | none =>
    have grown := extends_enter table canonical parent
    obtain ⟨size, last⟩ := entry_enter_fresh fresh parent
    have split (id : FileId) (below : id < (table.enter canonical parent).2.entries.size) :
        id = table.entries.size ∨ id < table.entries.size :=
      (Nat.lt_succ_iff_lt_or_eq.mp (Nat.lt_of_lt_of_eq below size)).symm
    refine ⟨(kept.sound.enter canonical parent).1, kept.distinct.enter canonical parent,
      (grown.path? 0 kept.sound.anonymous).trans kept.anonymous, fun id above below => ?_,
      fun id document below cached => ?_⟩
    · rcases split id below with rfl | known
      · exact ⟨canonical, by rw [path?_of_lt below, last], normal⟩
      · rw [grown.path? id known]
        exact kept.named id above known
    · rcases split id below with rfl | known
      · rw [last] at cached
        cases cached
      · rw [entry_enter table canonical parent known] at cached ⊢
        rw [settings.catcodes, settings.commands]
        exact kept.current id document known cached

/-- What is known about a file may change if a document that is cached then comes from the
contents that are known then. -/
theorem modify (id : FileId) {change : FileEntry → FileEntry}
    (sound : (table.modify id change).Sound fun _ => True)
    (path : ∀ entry : FileEntry, (change entry).path = entry.path)
    (current : ∀ document, (change (table.entry id)).document = some document →
      ∃ bytes, (change (table.entry id)).contents = some bytes ∧
        Document.parse (Text.decode bytes) (Catcode.Table.ofOverrides table.catcodes)
          table.commands (table.entry id).id = .ok document) :
    (table.modify id change).Kept files where
  sound := sound
  distinct := kept.distinct.congr (path?_modify id path)
  anonymous := (path?_modify id path 0).trans kept.anonymous
  named other above below := by
    rw [path?_modify id path]
    exact kept.named other above (by rwa [size_modify] at below)
  current other document below cached := by
    rw [size_modify] at below
    rw [entry_modify table id change below] at cached ⊢
    split at cached
    · rename_i same
      subst same
      rw [kept.entry_id] at cached ⊢
      rw [if_pos rfl]
      exact current document cached
    · rename_i apart
      rw [if_neg apart]
      exact kept.current other document below cached

/-- **One change.** Every change of a table keeps it. -/
theorem changes (change : Changes files table id later) : later.Kept files := by
  cases change with
  | entered canonical parent _ normal => exact kept.enter canonical parent normal
  | given id contents => exact kept.modify id (kept.sound.setSource id trivial) (fun _ => rfl) nofun
  | taken id bytes missing =>
    refine kept.modify id (kept.sound.modify id fun here => ?_) (fun _ => rfl)
      fun document cached => ?_
    · exact ⟨here.number, fun _ _ => trivial, here.document⟩
    · -- without contents no document is cached
      obtain ⟨bytes, known, _⟩ := kept.current _ document (kept.id_lt id) (by rwa [kept.entry_id])
      rw [kept.entry_id, missing] at known
      cases known
  | @parsed id bytes document known parsed =>
    refine kept.modify id (kept.sound.modify id fun here => ?_) (fun _ => rfl)
      fun other cached => ?_
    · refine ⟨here.number, here.contents, fun other cached => ?_⟩
      cases cached
      exact ⟨bytes, trivial, parsed⟩
    · cases cached
      exact ⟨bytes, known, parsed⟩

end Kept

/-- A table becomes another one by changes of such files only. -/
def Makes (files : FileSystem) (about : FileId → Prop) : FileTable → FileTable → Prop :=
  Relation.ReflTransGen fun table later => ∃ id, about id ∧ Changes files table id later

namespace Makes

variable {about : FileId → Prop}

/-- A change that is about a file makes a table about it. -/
theorem single (change : Changes files table id later) (concerned : about id) :
    Makes files about table later :=
  Relation.ReflTransGen.single ⟨id, concerned, change⟩

/-- Changes may be made one after another. -/
theorem trans {last : FileTable} (first : Makes files about table later)
    (second : Makes files about later last) : Makes files about table last :=
  Relation.ReflTransGen.trans first second

/-- More files may be concerned. -/
theorem mono {wider : FileId → Prop} (makes : Makes files about table later)
    (within : ∀ id, about id → wider id) : Makes files wider table later := by
  induction makes with
  | refl => exact .refl
  | tail _ change ih =>
    obtain ⟨id, concerned, change⟩ := change
    exact ih.trans (.single change (within id concerned))

/-- Changes keep what is kept of the files. -/
theorem kept (makes : Makes files about table later) (kept : table.Kept files) :
    later.Kept files := by
  induction makes with
  | refl => exact kept
  | tail _ change ih =>
    obtain ⟨_, _, change⟩ := change
    exact ih.changes change

theorem settings (makes : Makes files about table later) : table.SameSettings later := by
  induction makes with
  | refl => exact .refl table
  | tail _ change ih =>
    obtain ⟨_, _, change⟩ := change
    exact ih.trans (.changes change)

theorem retains (makes : Makes files about table later) : table.Retains later := by
  induction makes with
  | refl => exact .refl table
  | tail _ change ih =>
    obtain ⟨_, _, change⟩ := change
    exact ih.trans change.retains

/-- Other files stay as they are. -/
theorem entry_eq (makes : Makes files about table later) (below : id < table.entries.size)
    (apart : ¬about id) : later.entry id = table.entry id := by
  induction makes with
  | refl => rfl
  | tail earlier change ih =>
    obtain ⟨other, concerned, change⟩ := change
    have known := Nat.lt_of_lt_of_le below (retains earlier).size_le
    exact (change.entry_eq (fun same => by subst same; exact apart concerned) known).trans ih

theorem enter (found : canonicalPath files path = .ok canonical) (parent : Option FileId) :
    Makes files (table.entries.size ≤ ·) table (table.enter canonical parent).2 := by
  cases fresh : table.find? canonical with
  | some entry =>
    rw [FileTable.enter, fresh]
    exact .refl
  | none =>
    refine .single (.entered canonical parent fresh ?_) (Nat.le_refl _)
    rw [canonicalPath_eq found, files.canonical_canonical]

end Makes

/-- What registering and loading do where a file can have the path. -/
theorem perform_register (found : canonicalPath files path = .ok canonical)
    (parent : Option FileId) :
    table.perform files (.register path parent) = (table.enter canonical parent).2 := by
  simp only [perform, FileTable.register, found]
  rfl

/-- Loading enters the path and asks for its document. -/
theorem perform_load (found : canonicalPath files path = .ok canonical) :
    table.perform files (.load path) =
      ((table.enter canonical none).2.document files (table.enter canonical none).1.id).2 := by
  simp only [perform, FileTable.load, FileTable.register, found]
  simp only [bind, Except.bind, pure, Except.pure]
  split <;> rename_i result <;> rw [result]

namespace Kept

variable (kept : table.Kept files)

include kept

/-- Reading changes at most what is known about the file, which then has the contents read. -/
theorem makes_read (id : FileId) :
    Makes files (· = (table.entry id).id) table (table.read files id).2 ∧
      (∀ bytes, (table.read files id).1 = .ok bytes →
        ((table.read files id).2.entry id).contents = some bytes) ∧
      ∀ error, (table.read files id).1 = .error error → (table.read files id).2 = table := by
  unfold FileTable.read
  dsimp only
  cases cached : (table.entry id).contents with
  | some bytes =>
    refine ⟨.refl, fun other same => ?_, fun _ _ => rfl⟩
    cases same
    exact cached
  | none =>
    cases named : (table.entry id).path with
    | none => exact ⟨.refl, nofun, fun _ _ => rfl⟩
    | some path =>
      dsimp only
      cases found : files.read path with
      | error error => exact ⟨.refl, nofun, fun _ _ => rfl⟩
      | ok bytes =>
        refine ⟨.single (.taken id bytes cached) rfl, fun other same => ?_, nofun⟩
        cases same
        rw [kept.entry_modify_self]

/-- Parsing changes at most what is known about the file. The answer is what the contents that are
read are parsed to. -/
theorem makes_document (id : FileId) :
    Makes files (· = (table.entry id).id) table (table.document files id).2 ∧
      (table.document files id).1 = (do
        let bytes ← (table.read files id).1.mapError .file
        (Document.parse (Text.decode bytes) (Catcode.Table.ofOverrides table.catcodes)
          table.commands (table.entry id).id).mapError .number) ∧
      ∀ error, (table.read files id).1 = .error error → (table.document files id).2 = table := by
  obtain ⟨reads, contents, failed⟩ := kept.makes_read id
  have settings := reads.settings
  have number : ((table.read files id).2.entry id).id = (table.entry id).id :=
    (kept.sound.read (fun _ _ _ => trivial) id).2.2.2.1
  unfold FileTable.document
  dsimp only
  cases cached : (table.entry id).document with
  | some document =>
    have here := kept.current _ document (kept.id_lt id) (by rwa [kept.entry_id])
    rw [kept.entry_id] at here
    obtain ⟨bytes, known, parsed⟩ := here
    have read : table.read files id = (.ok bytes, table) := by
      simp only [FileTable.read, known]
    rw [read]
    have answer := congrArg (Except.mapError DocumentError.number) parsed
    exact ⟨.refl, answer.symm, fun _ failed => by cases failed⟩
  | none =>
    generalize table.read files id = result at reads contents failed settings number
    obtain ⟨error | bytes, later⟩ := result
    · exact ⟨reads, rfl, failed⟩
    · dsimp only at reads contents settings number ⊢
      rw [settings.catcodes, settings.commands]
      cases parsed : Document.parse (Text.decode bytes)
        (Catcode.Table.ofOverrides table.catcodes) table.commands (table.entry id).id with
      | error error =>
        have answer := congrArg (Except.mapError DocumentError.number) parsed
        exact ⟨reads, answer.symm, fun _ failed => by cases failed⟩
      | ok document =>
        have answer := congrArg (Except.mapError DocumentError.number) parsed
        refine ⟨reads.trans (.single (.parsed id (contents bytes rfl) ?_) number), answer.symm,
          fun _ failed => by cases failed⟩
        rwa [settings.catcodes, settings.commands, number]

/-- A file is entered under the number that its path has, or under a new one. -/
theorem path?_enter (canonical : Path) (parent : Option FileId) :
    table.path? (table.enter canonical parent).1.id = some canonical ∨
      table.entries.size ≤ (table.enter canonical parent).1.id := by
  unfold FileTable.enter
  cases fresh : table.find? canonical with
  | some entry =>
    obtain ⟨id, here, known⟩ := exists_of_find? fresh
    rw [(kept.sound.entries id entry here).number]
    exact .inl known
  | none => exact .inr (Nat.le_refl _)

/-- **One operation.** An operation changes what is known about the files that it is about, and may
enter a file. -/
theorem makes_perform (operation : Operation) :
    Makes files (fun id => operation.Concerns files table id ∨ table.entries.size ≤ id) table
      (table.perform files operation) := by
  cases operation with
  | register path parent =>
    cases found : canonicalPath files path with
    | error error =>
      simp only [perform, FileTable.register, found]
      exact .refl
    | ok canonical =>
      rw [perform_register found]
      exact (Makes.enter found parent).mono fun _ => .inr
  | setSource id contents => exact .single (.given id contents) (.inl (kept.sound.id_entry id))
  | read id =>
    exact (kept.makes_read id).1.mono fun other same => .inl (same.trans (kept.sound.id_entry id))
  | document id =>
    exact (kept.makes_document id).1.mono fun other same =>
      .inl (same.trans (kept.sound.id_entry id))
  | load path =>
    cases found : canonicalPath files path with
    | error error =>
      simp only [perform, FileTable.load, FileTable.register, found]
      exact .refl
    | ok canonical =>
      have enters : Makes files (table.entries.size ≤ ·) table (table.enter canonical none).2 :=
        .enter found none
      have number := (kept.sound.enter canonical none).2
      have parses := ((enters.kept kept).makes_document (table.enter canonical none).1.id).1
      rw [number] at parses
      rw [perform_load found]
      refine (enters.mono fun _ => .inr).trans (parses.mono fun id same => ?_)
      rw [same]
      exact (kept.path?_enter canonical none).imp_left fun known => ⟨canonical, found, known⟩

end Kept

/-- Operations keep what is kept, the settings and the entries. -/
theorem Kept.performAll (kept : table.Kept files) (operations : List Operation) :
    (performAll files table operations).Kept files ∧
      table.SameSettings (performAll files table operations) ∧
      table.Retains (performAll files table operations) := by
  induction operations generalizing table with
  | nil => exact ⟨kept, .refl table, .refl table⟩
  | cons operation rest ih =>
    have first := kept.makes_perform operation
    obtain ⟨keptLater, settings, retains⟩ := ih (first.kept kept)
    exact ⟨keptLater, first.settings.trans settings, first.retains.trans retains⟩

/-- What a table knows about files hangs together. -/
structure Consistent (files : FileSystem) (table : FileTable) : Prop where
  /-- The numbers are those up to the last one given out, in this order. -/
  numbers : table.entries.toList.map FileEntry.id = List.range table.entries.size
  anonymous : (table.entry 0).path = none
  named : ∀ id, 0 < id → id < table.entries.size → ∃ path, (table.entry id).path = some path ∧
    files.canonical path = path
  distinct : ∀ id other, 0 < id → id < table.entries.size → other < table.entries.size →
    (table.entry id).path = (table.entry other).path → id = other
  /-- Looking a path up leads to the file with its canonical form, however the path is spelt. -/
  found : ∀ spelling canonical, canonicalPath files spelling = .ok canonical →
    ∃ found, table.lookup files spelling = .ok found ∧ ∀ entry, found = some entry ↔
      ∃ id < table.entries.size, table.entry id = entry ∧ entry.path = some canonical
  /-- A cached document is what the contents are parsed to. -/
  current : ∀ id document, id < table.entries.size → (table.entry id).document = some document →
    ∃ bytes, (table.entry id).contents = some bytes ∧
      Document.parse (Text.decode bytes) (Catcode.Table.ofOverrides table.catcodes)
        table.commands id = .ok document
  /-- Asked for the document of a file, a table answers from its contents. -/
  answered : ∀ id bytes, id < table.entries.size → (table.entry id).contents = some bytes →
    (table.document files id).1 = (Document.parse (Text.decode bytes)
      (Catcode.Table.ofOverrides table.catcodes) table.commands id).mapError .number
  /-- A file that is given contents has these, and asked for its document a table answers from
  them. A number that was not given out stands for the anonymous input. -/
  given : ∀ id contents, ((table.setSource id contents).entry id).contents = some contents ∧
    ((table.setSource id contents).document files id).1 = (Document.parse (Text.decode contents)
      (Catcode.Table.ofOverrides table.catcodes) table.commands (table.entry id).id).mapError
        .number
  /-- A file that cannot be read leaves everything as it is. -/
  unreadable : ∀ id error, (table.read files id).1 = .error error →
    (table.read files id).2 = table ∧ (table.document files id).2 = table

namespace Kept

variable (kept : table.Kept files)

include kept

/-- A path is looked up by its canonical form. -/
theorem lookup (found : canonicalPath files path = .ok canonical) :
    table.lookup files path = .ok (table.find? canonical) ∧
      ∀ entry, table.find? canonical = some entry ↔
        ∃ id < table.entries.size, table.entry id = entry ∧ entry.path = some canonical := by
  refine ⟨by rw [FileTable.lookup, found]; rfl, fun entry => ⟨fun same => ?_, ?_⟩⟩
  · obtain ⟨id, here, known⟩ := exists_of_find? same
    have below := lt_of_path? known
    have stands : table.entry id = entry := by rw [FileTable.entry, here]
    exact ⟨id, below, stands, by rw [← stands, ← path?_of_lt below, known]⟩
  · rintro ⟨id, below, rfl, named⟩
    cases same : table.find? canonical with
    | none => exact absurd (path?_of_lt below ▸ named) (path?_ne_of_find? same id)
    | some other =>
      obtain ⟨stands, here, known⟩ := exists_of_find? same
      obtain rfl := kept.distinct stands id canonical known (by rw [path?_of_lt below, named])
      rw [FileTable.entry, here]

/-- What a file is given replaces what was known of its contents, a cached document included. -/
theorem entry_setSource (id : FileId) (contents : List UInt8) :
    (table.setSource id contents).entry id =
      { table.entry id with contents := some contents, document := none } :=
  kept.entry_modify_self id fun entry => { entry with contents := some contents, document := none }

/-- Behind `setSource`, a file is answered by the parse of what was given. -/
theorem document_given (id : FileId) (contents : List UInt8) :
    ((table.setSource id contents).document files id).1 = (Document.parse (Text.decode contents)
      (Catcode.Table.ofOverrides table.catcodes) table.commands (table.entry id).id).mapError
        .number := by
  have entry := kept.entry_setSource id contents
  have read : ((table.setSource id contents).read files id).1 = .ok contents := by
    simp only [FileTable.read, entry]
  have later : (table.setSource id contents).Kept files := kept.changes (.given id contents)
  rw [(later.makes_document id).2.1, read, entry]
  rfl

/-- What is kept makes a table consistent. -/
theorem consistent : table.Consistent files where
  numbers := by
    apply List.ext_getElem
    · simp
    · intro id here _
      rw [List.length_map, Array.length_toList] at here
      rw [List.getElem_map, Array.getElem_toList, List.getElem_range]
      exact (kept.sound.entries id _ (Array.getElem?_eq_getElem here)).number
  anonymous := by rw [← path?_of_lt kept.sound.anonymous, kept.anonymous]
  named id above below := by
    rw [← path?_of_lt below]
    exact kept.named id above below
  distinct id other above below known same := by
    obtain ⟨path, named, _⟩ := kept.named id above below
    rw [← path?_of_lt below, ← path?_of_lt known] at same
    exact kept.distinct id other path named (same ▸ named)
  found spelling canonical spelt := ⟨_, kept.lookup spelt⟩
  current := kept.current
  answered id bytes below known := by
    have read : (table.read files id).1 = .ok bytes := by
      simp only [FileTable.read, known]
    rw [(kept.makes_document id).2.1, read, kept.id_eq below]
    rfl
  given id contents :=
    ⟨by rw [kept.entry_setSource id contents], kept.document_given id contents⟩
  unreadable id error failed :=
    ⟨(kept.makes_read id).2.2 error failed, (kept.makes_document id).2.2 error failed⟩

/-- A file that was entered keeps its number. -/
theorem lookup_performAll {spelling : Path} {entry : FileEntry} {entered : FileTable}
    (registered : table.register files path parent = .ok (entry, entered))
    (same : canonicalPath files spelling = canonicalPath files path) (operations : List Operation) :
    ∃ found, (FileTable.performAll files entered operations).lookup files spelling =
      .ok (some found) ∧ found.id = entry.id := by
  cases spelt : canonicalPath files path with
  | error error => simp [FileTable.register, spelt, bind, Except.bind] at registered
  | ok canonical =>
    have reached : table.enter canonical parent = (entry, entered) := by
      simpa [FileTable.register, spelt, bind, Except.bind, pure, Except.pure] using registered
    have here := kept.sound.path?_enter canonical parent
    have enteredKept : (table.enter canonical parent).2.Kept files :=
      (Makes.enter spelt parent).kept kept
    rw [reached] at here enteredKept
    obtain ⟨later, _, retains⟩ := enteredKept.performAll operations
    have known := (retains.path? entry.id (lt_of_path? here)).trans here
    have below := lt_of_path? known
    obtain ⟨looked, finds⟩ := later.lookup (same.trans spelt)
    refine ⟨_, looked.trans (congrArg _ ((finds _).mpr ⟨entry.id, below, rfl, ?_⟩)),
      later.id_eq below⟩
    rw [← path?_of_lt below, known]

end Kept

/-- What further operations leave of what a table knows. -/
structure Lasts (files : FileSystem) (table : FileTable) (operations : List Operation) : Prop where
  /-- Paths and parents stay as they are. -/
  retains : table.Retains (performAll files table operations)
  /-- A file is found under the number that it was given when it was entered. -/
  registered : ∀ path parent entry entered,
    table.register files path parent = .ok (entry, entered) →
    ∀ spelling, canonicalPath files spelling = canonicalPath files path →
      ∃ found, (performAll files entered operations).lookup files spelling = .ok (some found) ∧
        found.id = entry.id
  /-- The next operation changes nothing about the files that it is not about. -/
  apart : ∀ operation id, id < table.entries.size → ¬operation.Concerns files table id →
    (table.perform files operation).entry id = table.entry id

/-- **File tables.** After every sequence of operations a table is consistent, and what it knows
lasts through every sequence of further ones. -/
theorem consistent_performAll (files : FileSystem) (workingDirectory : Path)
    (commands : CommandTable) (catcodes : Bindings Nat Catcode) (earlier later : List Operation) :
    (performAll files (empty workingDirectory commands catcodes) earlier).Consistent files ∧
      (performAll files (empty workingDirectory commands catcodes) earlier).Lasts files later ∧
      (empty workingDirectory commands catcodes).SameSettings
        (performAll files (empty workingDirectory commands catcodes) earlier) := by
  obtain ⟨kept, settings, _⟩ :=
    (Kept.empty files workingDirectory commands catcodes).performAll earlier
  refine ⟨kept.consistent, ⟨(kept.performAll later).2.2, ?_, fun operation id below apart => ?_⟩,
    settings⟩
  · exact fun path parent entry entered registered spelling same =>
      kept.lookup_performAll registered same later
  · exact (kept.makes_perform operation).entry_eq below
      (not_or.mpr ⟨apart, Nat.not_le.mpr below⟩)

end FileTable

end TexSource
