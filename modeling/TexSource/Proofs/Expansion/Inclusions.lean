import TexSource.Expansion
import TexSource.FileSystem.Snapshot
import TexSource.Proofs.Expansion.Directives

/-!
# Documents included in each other

No document is included in itself, directly or through others, and not more documents are included
in each other than the limit allows (`Document.Acyclic`). A cycle is reported for a directive
exactly where the file that its name stands for is one of those around it, and a directive that
cannot be followed stays as it was written (`acyclic_expand`).
-/

namespace TexSource

/-- Documents that are included in each other, the first of them in the given one, by the numbers
of their files. -/
inductive Document.Chain : Document → List FileId → Prop where
  | nil (document : Document) : Chain document []
  | cons {document inner : Document} {id : NodeId} {directive : Command} {fileId : FileId}
      {path : Text} {span : Span} {ids : List FileId}
      (included : .inclusion id directive fileId path inner span ∈ document.walk)
      (later : Chain inner ids) : Chain document (fileId :: ids)

/-- The documents that are included in each other in a document are distinct, they are none of
those around it, and there are not too many. -/
structure Document.Acyclic (room : Nat) (around : List FileId) (document : Document) : Prop where
  length_le {ids : List FileId} (chain : document.Chain ids) : ids.length ≤ room
  nodup {ids : List FileId} (chain : document.Chain ids) : ids.Nodup
  apart {ids : List FileId} (chain : document.Chain ids) : ∀ id ∈ ids, id ∉ around

namespace Expansion

/-- An included document is none of those around it, and neither are those included in it. -/
structure Inclusion.Acyclic (room : Nat) (around : List FileId) (inclusion : Inclusion) : Prop where
  apart : inclusion.fileId ∉ around
  below : ∃ inner, room = inner + 1 ∧
    inclusion.document.Acyclic inner (around ++ [inclusion.fileId])

/-- A node that stands for an included document stands for one of the inclusions. -/
def Stands (inclusions : Array Inclusion) (node : Node) : Prop :=
  ∀ id directive fileId path document span,
    node = .inclusion id directive fileId path document span →
    ∃ included ∈ inclusions, included.fileId = fileId ∧ included.document = document

/-- A document in which all documents are acyclic is acyclic. -/
theorem acyclic_of_stands {inclusions : Array Inclusion} {room : Nat} {around : List FileId}
    {document : Document}
    (acyclic : ∀ included ∈ inclusions, included.Acyclic room around)
    (stands : ∀ node ∈ document.walk, Stands inclusions node) : document.Acyclic room around := by
  have first : ∀ {id directive fileId path inner span},
      .inclusion id directive fileId path inner span ∈ document.walk →
      fileId ∉ around ∧ ∃ below, room = below + 1 ∧ inner.Acyclic below (around ++ [fileId]) := by
    intro id directive fileId path inner span member
    obtain ⟨included, given, rfl, rfl⟩ := stands _ member _ _ _ _ _ _ rfl
    exact ⟨(acyclic included given).apart, (acyclic included given).below⟩
  constructor
  · intro ids chain
    cases chain with
    | nil => exact Nat.zero_le _
    | cons included later =>
      obtain ⟨-, below, rfl, inside⟩ := first included
      exact Nat.succ_le_succ (inside.length_le later)
  · intro ids chain
    cases chain with
    | nil => exact List.nodup_nil
    | cons included later =>
      obtain ⟨-, below, rfl, inside⟩ := first included
      refine List.nodup_cons.mpr ⟨fun member => inside.apart later _ member ?_, inside.nodup later⟩
      exact List.mem_append_right _ (List.mem_singleton.mpr rfl)
  · intro ids chain
    cases chain with
    | nil => exact nofun
    | cons included later =>
      obtain ⟨outside, below, rfl, inside⟩ := first included
      refine List.forall_mem_cons.mpr ⟨outside, fun id member around => ?_⟩
      exact inside.apart later id member (List.mem_append_left _ around)

theorem stands_of_isInclusion {inclusions : Array Inclusion} {node : Node}
    (own : node.isInclusion = false) : Stands inclusions node := by
  rintro id directive fileId path document span rfl
  cases own

mutual

/-- The nodes that splicing makes stand for inclusions. -/
theorem stands_spliceNode {inclusions : Array Inclusion} : (node : Node) → (created : NodeId) →
    (∀ below ∈ node.walk, Stands inclusions below) →
      ∀ below ∈ (spliceNode inclusions node created).1.walk, Stands inclusions below
  | .leaf _ _, _, stands => stands
  | .group _ _ opener children closer _, created, stands => by
    have inside := stands_spliceNodes children created (List.forall_mem_cons.mp stands).2
    exact List.forall_mem_cons.mpr ⟨stands_of_isInclusion rfl, inside⟩
  | .math _ _ opener children closer _, created, stands => by
    have inside := stands_spliceNodes children created (List.forall_mem_cons.mp stands).2
    exact List.forall_mem_cons.mpr ⟨stands_of_isInclusion rfl, inside⟩
  | .command invocation, created, stands => by
    have inside := stands_spliceCommand invocation created stands
    rcases spliceNode_command inclusions invocation created with
      ⟨-, stays⟩ | ⟨included, member, -, spliced⟩
    · rw [stays]
      exact inside
    · rw [spliced]
      refine List.forall_mem_cons.mpr ⟨?_, ?_⟩
      · rintro id directive fileId path document span ⟨⟩
        exact ⟨included, member, rfl, rfl⟩
      · cases command : (spliceCommand inclusions invocation created).1
        rw [command] at inside
        exact List.forall_mem_cons.mpr
          ⟨stands_of_isInclusion rfl, (List.forall_mem_cons.mp inside).2⟩
  | .environment _ _ opening body none _ _, created, stands => by
    have stands : ∀ below ∈ opening.walk ++ walkAll body, Stands inclusions below :=
      (List.forall_mem_cons.mp stands).2
    rw [List.forall_mem_append] at stands
    have head := stands_spliceCommand opening created stands.1
    have inside := stands_spliceNodes body (spliceCommand inclusions opening created).2 stands.2
    exact List.forall_mem_cons.mpr
      ⟨stands_of_isInclusion rfl, List.forall_mem_append.mpr ⟨head, inside⟩⟩
  | .environment _ _ opening body (some ending) _ _, created, stands => by
    have stands : ∀ below ∈ opening.walk ++ walkAll body ++ ending.walk,
        Stands inclusions below := (List.forall_mem_cons.mp stands).2
    rw [List.forall_mem_append, List.forall_mem_append] at stands
    have head := stands_spliceCommand opening created stands.1.1
    have inside := stands_spliceNodes body (spliceCommand inclusions opening created).2 stands.1.2
    have last := stands_spliceCommand ending (spliceNodes inclusions body
      (spliceCommand inclusions opening created).2).2 stands.2
    exact List.forall_mem_cons.mpr ⟨stands_of_isInclusion rfl, List.forall_mem_append.mpr
      ⟨List.forall_mem_append.mpr ⟨head, inside⟩, last⟩⟩
  | .inclusion _ _ _ _ _ _, _, stands => stands

theorem stands_spliceCommand {inclusions : Array Inclusion} :
    (invocation : Command) → (created : NodeId) →
    (∀ below ∈ invocation.walk, Stands inclusions below) →
      ∀ below ∈ (spliceCommand inclusions invocation created).1.walk, Stands inclusions below
  | ⟨_, _, head, star, arguments, _⟩, created, stands => by
    have inside := stands_spliceArguments arguments created (List.forall_mem_cons.mp stands).2
    exact List.forall_mem_cons.mpr ⟨stands_of_isInclusion rfl, inside⟩

theorem stands_spliceNodes {inclusions : Array Inclusion} :
    (nodes : List Node) → (created : NodeId) →
    (∀ below ∈ walkAll nodes, Stands inclusions below) →
      ∀ below ∈ walkAll (spliceNodes inclusions nodes created).1, Stands inclusions below
  | [], _, stands => stands
  | node :: rest, created, stands => by
    have stands : ∀ below ∈ node.walk ++ walkAll rest, Stands inclusions below := stands
    rw [List.forall_mem_append] at stands
    have first := stands_spliceNode node created stands.1
    have later := stands_spliceNodes rest (spliceNode inclusions node created).2 stands.2
    exact List.forall_mem_append.mpr ⟨first, later⟩

theorem stands_spliceArguments {inclusions : Array Inclusion} :
    (arguments : List Argument) → (created : NodeId) →
    (∀ below ∈ walkArguments arguments, Stands inclusions below) →
      ∀ below ∈ walkArguments (spliceArguments inclusions arguments created).1,
        Stands inclusions below
  | [], _, stands => stands
  | ⟨_, leading, content⟩ :: rest, created, stands => by
    have stands : ∀ below ∈ walkAll leading ++ content.walk ++ walkArguments rest,
        Stands inclusions below := stands
    rw [List.forall_mem_append, List.forall_mem_append] at stands
    have before := stands_spliceNodes leading created stands.1.1
    have inside := stands_spliceNode content (spliceNodes inclusions leading created).2 stands.1.2
    have later := stands_spliceArguments rest
      (spliceNode inclusions content (spliceNodes inclusions leading created).2).2 stands.2
    exact List.forall_mem_append.mpr ⟨List.forall_mem_append.mpr ⟨before, inside⟩, later⟩

end

/-- The documents that are included in the document of a branch are its inclusions. -/
theorem Branch.stands_result (commands : CommandTable) (document : Document) (branch : Branch) :
    ∀ node ∈ (branch.result commands document).walk, Stands branch.inclusions node := by
  obtain ⟨_, _, own⟩ := Document.splits_placed (branch.output.toList ++
    [{ kind := .endOfInput, raw := [], span := document.endOfInput.span }]) document.source
    document.fileId commands
  exact stands_spliceNode _ _ fun node member => stands_of_isInclusion (own node member)

/-- Documents that are included come out acyclic. -/
def Nested.Acyclic (room : Nat) (nested : Nested) : Prop :=
  ∀ reader, nested = some reader → ∃ inner, room = inner + 1 ∧
    ∀ document around shared expanded later,
      reader document around shared = .ok (expanded, later) → expanded.Acyclic inner around

namespace Branch

variable {settings : Settings} {site : Site} {nested : Nested} {branch after : Branch}
  {token : Token} {room : Nat}

/-- A file that is located is none of those around it. -/
theorem apart_of_locate {name : Text} {shared later : Shared} {entry : FileEntry}
    {document : Document}
    (located : locate settings site name shared = .ok (.ok (entry, document), later)) :
    entry.id ∉ site.ancestors := by
  unfold locate at located
  split at located
  · cases located
  · cases located
  · dsimp only at located
    split at located
    · cases located
    · rename_i noCycle
      split at located
      · cases located
      · cases located
      · cases located
        exact fun member => noCycle (List.contains_iff_mem.mpr member)

theorem acyclic_load (below : nested.Acyclic room) {name : Text} {anchor : Span}
    {shared later : Shared} {inclusion : Inclusion}
    (done : load settings site nested name anchor shared = .ok (some inclusion, later)) :
    inclusion.Acyclic room site.ancestors := by
  cases nested with
  | none => cases done
  | some reader =>
    obtain ⟨inner, rfl, acyclic⟩ := below reader rfl
    unfold load at done
    dsimp only at done
    cases located : locate settings site name shared with
    | error abort =>
      rw [located] at done
      cases done
    | ok result =>
      obtain ⟨outcome, middle⟩ := result
      rw [located] at done
      cases outcome with
      | error problem => cases done
      | ok found =>
        obtain ⟨entry, document⟩ := found
        cases expansion : reader document (site.ancestors ++ [entry.id]) middle with
        | error abort =>
          simp only [bind, Except.bind, expansion] at done
          cases done
        | ok result =>
          obtain ⟨expanded, last⟩ := result
          simp only [bind, Except.bind, expansion] at done
          cases done
          exact ⟨apart_of_locate located, inner, rfl, acyclic _ _ _ _ _ expansion⟩

/-- **One step** includes acyclic documents only. -/
theorem acyclic_step (below : nested.Acyclic room)
    (acyclic : ∀ included ∈ branch.inclusions, included.Acyclic room site.ancestors)
    (done : branch.step settings site nested token = .ok after) :
    ∀ included ∈ after.inclusions, included.Acyclic room site.ancestors := by
  rcases step_cases done with ⟨directive, follows⟩ | aside
  · rw [step_of_load follows] at done
    cases loaded : load settings site nested directive.name token.span branch.shared with
    | error abort =>
      rw [loaded] at done
      cases done
    | ok result =>
      obtain ⟨inclusion, shared⟩ := result
      rw [loaded] at done
      cases done
      intro included member
      have member := Array.mem_toList_iff.mpr member
      rw [Array.toList_appendList] at member
      rcases List.mem_append.mp member with earlier | new
      · exact acyclic included (Array.mem_toList_iff.mp earlier)
      · obtain rfl := Option.mem_toList.mp new
        exact acyclic_load below loaded
  · rw [aside.inclusions]
    exact acyclic

/-- **A whole run** includes acyclic documents only. -/
theorem acyclic_run (below : nested.Acyclic room)
    (acyclic : ∀ included ∈ branch.inclusions, included.Acyclic room site.ancestors)
    (done : branch.run settings site nested = .ok after) :
    ∀ included ∈ after.inclusions, included.Acyclic room site.ancestors := by
  fun_induction branch.run settings site nested with
  | case1 branch stream found =>
    cases done
    exact acyclic
  | case2 branch token stream found abort failed => cases done
  | case3 branch token stream found later stepped ih =>
    have advanced : ∀ included ∈ { branch with stream }.inclusions,
        included.Acyclic room site.ancestors := acyclic
    exact ih (acyclic_step below advanced stepped) done

end Branch

section

variable {settings : Settings}

theorem acyclic_expandWith {nested : Nested} {room : Nat} (below : nested.Acyclic room)
    {document expanded : Document} {around : List FileId} {shared later : Shared}
    (done : expandWith settings nested document around shared = .ok (expanded, later)) :
    expanded.Acyclic room around := by
  obtain ⟨branch, ran, rfl, -⟩ := exists_run_of_expandWith done
  refine acyclic_of_stands (Branch.acyclic_run below ?_ ran) (Branch.stands_result _ _ _)
  exact fun _ member => nomatch Array.mem_toList_iff.mpr member

/-- Included documents come out acyclic, whatever room is left for them. -/
theorem acyclic_expandIncluded (settings : Settings) (room : Nat) :
    (expandIncluded settings room).Acyclic room := by
  induction room with
  | zero => exact nofun
  | succ room below =>
    rintro reader ⟨⟩
    exact ⟨room, rfl, fun _ _ _ _ _ done => acyclic_expandWith below done⟩

end

section

variable {settings : Settings} {main document : Document} {shared start : Shared} {depth : Nat}
  {ancestors : List FileId}

theorem hereditary_true : Hereditary fun _ => True where
  markExpanded _ := trivial
  withTicket _ _ := trivial
  halves _ _ := ⟨trivial, trivial⟩
  opener _ := trivial
  closer _ := trivial

/-- Expansions enter and read files, and so their file tables arise and grow. -/
theorem supplies_grown (files : FileSystem) (main : FileId) (size : Nat) :
    Supplies files main (fun _ => True) fun table => table.Arises ∧ size ≤ table.entries.size where
  enter holds path parent :=
    ⟨holds.1.enter path parent, Nat.le_trans holds.2 (FileTable.extends_enter ..).size_le⟩
  document holds id :=
    ⟨holds.1.document files id, Nat.le_trans holds.2 (FileTable.extends_document ..).size_le⟩
  supplied _ _ _ _ _ _ := trivial

theorem Shared.carries_true {kept : FileTable → Prop} (holds : kept shared.table) :
    shared.Carries (fun _ => True) kept where
  scope _ _ _ _ := ⟨fun _ _ => trivial, fun _ _ _ _ => trivial⟩
  table := holds

/-- What a step keeps is kept by a run of single steps. -/
theorem Branch.Carries.runs {property : Token → Prop} {kept : FileTable → Prop} {main : FileId}
    (hereditary : Hereditary property) (supplies : Supplies settings.files main property kept)
    {site : Site} (inside : main ∈ site.ancestors) {nested : Nested}
    (below : nested.Carries main property kept) {first branch : Branch} {called stopped : Nat}
    (carries : first.Carries property kept)
    (runs : Runs settings site nested first branch called stopped) :
    branch.Carries property kept := by
  induction runs with
  | start => exact carries
  | @read branch after stream token _ _ _ found done ih =>
    have parts := branch.stream.tokens_next
    rw [found] at parts
    have left : ∀ other ∈ token :: stream.tokens, property other := by
      intro other member
      exact ih.stream other (by rw [parts]; exact member)
    rw [List.forall_mem_cons] at left
    have advanced : Branch.Carries property kept { branch with stream } :=
      { ih with stream := left.2 }
    exact advanced.step hereditary supplies inside below left.1 done

/-- The file table of a branch arises, and no file is forgotten. -/
theorem Branch.Runs.grown {branch : Branch} {called stopped : Nat}
    (runs : Runs settings (siteOf document ancestors start) (nestedAt settings depth)
      (.start document start) branch called stopped)
    (inside : main.fileId ∈ ancestors) (arises : start.table.Arises) :
    branch.shared.table.Arises ∧ start.table.entries.size ≤ branch.shared.table.entries.size := by
  have supplies := supplies_grown settings.files main.fileId start.table.entries.size
  have started : (Branch.start document start).Carries (fun _ => True) fun table =>
      table.Arises ∧ start.table.entries.size ≤ table.entries.size :=
    carries_start hereditary_true (fun _ _ _ => trivial)
      (Shared.carries_true ⟨arises, Nat.le_refl _⟩)
  exact (started.runs hereditary_true supplies inside
    (carries_expandIncluded hereditary_true supplies _) runs).shared.table

/-- The files around a branch are in its table. -/
theorem Nests.known (nests : Nests settings main shared depth document ancestors start)
    (arises : shared.table.Arises) (inside : main.fileId < shared.table.entries.size) :
    start.table.Arises ∧ (∀ id ∈ ancestors, id < start.table.entries.size) ∧
      main.fileId ∈ ancestors := by
  induction nests with
  | main => exact ⟨arises, by simpa using inside, List.mem_singleton.mpr rfl⟩
  | @opened depth document included ancestors inner start state branch stream token _ _ _ runs _ _
      opens ih =>
    obtain ⟨arises, known, inside⟩ := ih
    obtain ⟨arises, grown⟩ := runs.grown inside arises
    obtain ⟨directive, entry, -, located, rfl⟩ := Branch.located_of_opens opens
    obtain ⟨arises, more, last⟩ := Branch.lt_of_locate arises located
    refine ⟨arises, fun id member => ?_, List.mem_append_left _ inside⟩
    rcases List.mem_append.mp member with earlier | new
    · exact Nat.lt_of_lt_of_le (known id earlier) (Nat.le_trans grown more)
    · rw [List.mem_singleton.mp new]
      exact last

/-- An expansion comes to a directive: a branch of it, in the file of a site, has read the
control word and follows what is behind it. -/
inductive Meets (settings : Settings) (main : Document) (shared : Shared) :
    Site → Nested → Branch → Branch → Token → Scan.Directive → Prop where
  | intro {depth : Nat} {document : Document} {ancestors : List FileId} {start : Shared}
      {branch : Branch} {called stopped : Nat} {stream : Stream} {token : Token}
      {directive : Scan.Directive}
      (nests : Nests settings main shared depth document ancestors start)
      (runs : Branch.Runs settings (siteOf document ancestors start) (nestedAt settings depth)
        (.start document start) branch called stopped)
      (found : branch.stream.next = (some token, stream))
      (follows : Branch.follows? { branch with stream } token = some directive) :
      Meets settings main shared (siteOf document ancestors start) (nestedAt settings depth)
        branch { branch with stream } token directive

/-- Files can be included as long as there are not too many around. -/
theorem Nests.room (nests : Nests settings main shared depth document ancestors start) :
    (nestedAt settings depth).isSome = true ↔
      ancestors.length ≤ settings.limits.maxIncludeDepth := by
  obtain ⟨-, length⟩ := nests.depth_le
  constructor
  · intro allowed
    obtain ⟨below, -⟩ := nestedAt_of_isSome allowed
    omega
  · intro shallow
    have room : settings.limits.maxIncludeDepth.toNat - depth ≠ 0 := by omega
    obtain ⟨inner, same⟩ := Nat.exists_eq_succ_of_ne_zero room
    rw [nestedAt, same]
    rfl

/-- A branch only writes more. -/
theorem Branch.output_step {site : Site} {nested : Nested} {before after : Branch} {token : Token}
    (done : before.step settings site nested token = .ok after) :
    ∃ written : List Token, after.output = before.output ++ written := by
  rcases step_cases done with ⟨directive, follows⟩ | aside
  · rw [step_of_load follows] at done
    cases loaded : load settings site nested directive.name token.span before.shared with
    | error abort =>
      rw [loaded] at done
      cases done
    | ok result =>
      rw [loaded] at done
      cases done
      exact ⟨_, rfl⟩
  · exact aside.output

theorem Branch.output_run {site : Site} {nested : Nested} {branch last : Branch}
    (done : branch.run settings site nested = .ok last) :
    ∃ written : List Token, last.output = branch.output ++ written := by
  fun_induction branch.run settings site nested with
  | case1 branch stream found =>
    cases done
    exact ⟨[], by rw [Array.appendList_nil]⟩
  | case2 branch token stream found abort failed => cases done
  | case3 branch token stream found later stepped ih =>
    obtain ⟨first, same⟩ := output_step stepped
    obtain ⟨written, last⟩ := ih done
    refine ⟨first ++ written, ?_⟩
    have same : later.output = branch.output ++ first := same
    rw [last, same]
    exact Array.toList_inj.mp (by simp)

end

section

variable {files : FileSystem} {main : Document} {table : FileTable}

/-- A main document is loaded through a file table, or it is the anonymous input. -/
inductive Loaded (files : FileSystem) : Document → FileTable → Prop where
  | file {earlier table : FileTable} {main : Document} {path : Path} (arises : earlier.Arises)
      (done : earlier.load files path = (.ok main, table)) : Loaded files main table
  | anonymous {table : FileTable} {main : Document} (arises : table.Arises)
      (number : main.fileId = FileEntry.anonymous.id) : Loaded files main table

theorem Loaded.known (loaded : Loaded files main table) :
    table.Arises ∧ main.fileId < table.entries.size := by
  cases loaded with
  | anonymous arises number =>
    refine ⟨arises, ?_⟩
    rw [number]
    exact arises.sound.anonymous
  | @file earlier _ _ path arises done =>
    have later := arises.load files path
    rw [done] at later
    refine ⟨later, ?_⟩
    unfold FileTable.load at done
    cases registered : earlier.register files path with
    | error error =>
      rw [registered] at done
      cases done
    | ok result =>
      obtain ⟨entry, entered⟩ := result
      rw [registered] at done
      have known : entered.Arises ∧ entry.id < entered.entries.size := by
        unfold FileTable.register at registered
        cases canonical : FileTable.canonicalPath files path with
        | error error =>
          rw [canonical] at registered
          cases registered
        | ok canonical' =>
          rw [canonical] at registered
          have same : earlier.enter canonical' none = (entry, entered) := Except.ok.inj registered
          have later := arises.enter canonical' none
          have below := FileTable.lt_of_path? (arises.path?_enter canonical' none)
          rw [same] at later below
          exact ⟨later, below⟩
      obtain ⟨arises, below⟩ := known
      have reads : FileTable.Reads files fun _ => True := fun _ _ _ => trivial
      have parsed := (arises.sound.document reads entry.id).2
      have grown := (FileTable.extends_document files entered entry.id).size_le
      dsimp only at done
      split at done
      · rename_i document later read
        cases done
        rw [read] at parsed grown
        obtain ⟨bytes, -, parsed⟩ := parsed main rfl
        have number := arises.sound.id_entry entry.id
        rw [if_pos below] at number
        rw [number] at parsed
        obtain ⟨_, _, _, _, rfl⟩ := document_of_parse parsed
        exact Nat.lt_of_lt_of_le below grown
      · rename_i error later read
        cases done
        rw [read] at grown
        exact Nat.lt_of_lt_of_le below grown
      · cases done

end

/-- Inclusion is acyclic in an expansion, and cycles are reported exactly. The numbers of files
included in each other are distinct, that of the main file among them, and there are not too many.
At a directive a cycle is reported exactly if, below the limit on included files, its name stands
for the path of a file around it. A directive that is obstructed stays as it was written in what
the branch comes to, and the branch goes on behind it. -/
structure AcyclicExpansion (settings : Settings) (main : Document) (scope : Scope)
    (table : FileTable) : Prop where
  nodup {expanded : Document} {reports : List Diagnostic} {ids : List FileId}
    (done : (expand settings main scope table).outcome = .ok (expanded, reports))
    (chain : expanded.Chain ids) : (main.fileId :: ids).Nodup
  length_le {expanded : Document} {reports : List Diagnostic} {ids : List FileId}
    (done : (expand settings main scope table).outcome = .ok (expanded, reports))
    (chain : expanded.Chain ids) : ids.length ≤ max settings.limits.maxIncludeDepth 0
  cyclic {site : Site} {nested : Nested} {branch before : Branch} {token : Token}
    {directive : Scan.Directive}
    (meets : Meets settings main ⟨scope, table, #[], []⟩ site nested branch before token
      directive) :
    (∃ after report, before.step settings site nested token = .ok after ∧
        after.inclusions = before.inclusions ∧
        after.shared.diagnostics = before.shared.diagnostics.push report ∧
        report.kind = .cyclicInclude) ↔
      site.ancestors.length ≤ settings.limits.maxIncludeDepth ∧
        ∃ path, before.shared.table.resolve settings.files directive.name site.ancestors =
            .ok (some path) ∧
          ∃ id ∈ site.ancestors, (before.shared.table.entry id).path = some path
  stays {site : Site} {nested : Nested} {branch before : Branch} {token : Token}
    {directive : Scan.Directive} {problem : Problem}
    (meets : Meets settings main ⟨scope, table, #[], []⟩ site nested branch before token directive)
    (obstructed : Branch.Obstructed settings site before.shared.table directive.name problem) :
    ∃ after, before.step settings site nested token = .ok after ∧
      before.Leaves token problem after ∧
      branch.run settings site nested = after.run settings site nested ∧
      ∀ last, branch.run settings site nested = .ok last →
        ∃ written : List Token, last.output = after.output ++ written

theorem Meets.known {settings : Settings} {main : Document} {shared : Shared} {site : Site}
    {nested : Nested} {branch before : Branch} {token : Token} {directive : Scan.Directive}
    (meets : Meets settings main shared site nested branch before token directive)
    (arises : shared.table.Arises) (inside : main.fileId < shared.table.entries.size) :
    before.follows? token = some directive ∧ before.shared.table.Arises ∧
      (∀ id ∈ site.ancestors, id < before.shared.table.entries.size) ∧
      (nested.isSome = true ↔ site.ancestors.length ≤ settings.limits.maxIncludeDepth) ∧
      ∃ stream, branch.stream.next = (some token, stream) ∧ before = { branch with stream } := by
  cases meets with
  | intro nests runs found follows =>
    obtain ⟨started, known, around⟩ := nests.known arises inside
    obtain ⟨arises, grown⟩ := runs.grown around started
    exact ⟨follows, arises, fun id member => Nat.lt_of_lt_of_le (known id member) grown,
      nests.room, _, found, rfl⟩

/-- **Inclusion is acyclic and cycles are reported exactly**, whatever files, macros, and limits
there are. -/
theorem acyclic_expand {settings : Settings} {main : Document} {table : FileTable}
    (loaded : Loaded settings.files main table) (scope : Scope) :
    AcyclicExpansion settings main scope table := by
  obtain ⟨arises, inside⟩ := loaded.known
  have whole : ∀ {expanded reports},
      (expand settings main scope table).outcome = .ok (expanded, reports) →
      expanded.Acyclic settings.limits.maxIncludeDepth.toNat [main.fileId] := by
    intro expanded reports done
    unfold expand at done
    dsimp only at done
    split at done
    · cases done
    · rename_i expansion
      cases done
      exact acyclic_expandWith (acyclic_expandIncluded settings _) expansion
  constructor
  · intro expanded reports ids done chain
    have acyclic := whole done
    refine List.nodup_cons.mpr ⟨fun member => ?_, acyclic.nodup chain⟩
    exact acyclic.apart chain _ member (List.mem_singleton.mpr rfl)
  · intro expanded reports ids done chain
    have few := (whole done).length_le chain
    omega
  · intro site nested branch before token directive meets
    obtain ⟨follows, arises, known, room, _⟩ := meets.known arises inside
    exact Branch.cyclic_iff follows arises known room
  · intro site nested branch before token directive problem meets obstructed
    obtain ⟨follows, arises, known, room, stream, found, rfl⟩ := meets.known arises inside
    obtain ⟨after, done, leaves⟩ :=
      Branch.leaves_of_obstructed follows arises known room obstructed
    have same := Branch.run_of_found found done
    exact ⟨after, done, leaves, same, fun last ran => Branch.output_run (same ▸ ran)⟩

/-- A text that includes the file that it stands in. -/
def loopText : Text := "a\\input\x7bloop\x7db"

/-- A file system with one file, which includes itself. -/
def loopDisk : FileSystem :=
  FileSystem.Snapshot.toFileSystem <|
    FileSystem.Snapshot.insert ⟨⟨.slash, []⟩, []⟩ ["loop.tex"] (.file (Text.encode loopText))

/-- The file that includes itself is printed as it was written, with a report of the cycle. -/
theorem acyclic_expand_loopDisk :
    ∃ main table expanded reports,
      (FileTable.empty loopDisk.currentDirectory).load loopDisk (Path.ofText "/loop.tex") =
        (.ok main, table) ∧
      AcyclicExpansion ⟨loopDisk, {}, .standard⟩ main Scope.empty table ∧
      (expand ⟨loopDisk, {}, .standard⟩ main Scope.empty table).outcome =
        .ok (expanded, reports) ∧
      expanded.sourceText = loopText ∧ reports.map Diagnostic.kind = [.cyclicInclude] := by
  let loaded := (FileTable.empty loopDisk.currentDirectory).load loopDisk (Path.ofText "/loop.tex")
  have checked : (loaded.1.toOption.bind fun main =>
      (mainRun ⟨loopDisk, {}, .standard⟩ main Scope.empty loaded.2 20).filter fun branch =>
        decide ((branch.result .standard main).sourceText = loopText) &&
          decide (branch.shared.diagnostics.toList.map Diagnostic.kind =
            [.cyclicInclude])).isSome = true := by
    decide +kernel
  obtain ⟨branch, found⟩ := Option.isSome_iff_exists.mp checked
  obtain ⟨main, read, found⟩ := Option.bind_eq_some_iff.mp found
  obtain ⟨ran, passes⟩ := Option.filter_eq_some_iff.mp found
  simp only [Bool.and_eq_true, decide_eq_true_eq] at passes
  have loading : loaded = (.ok main, loaded.2) := by
    cases outcome : loaded.1 with
    | error error =>
      rw [outcome] at read
      cases read
    | ok document =>
      rw [outcome] at read
      cases read
      exact Prod.ext outcome rfl
  exact ⟨main, loaded.2, _, _, loading, acyclic_expand (.file (.empty ..) loading) Scope.empty,
    outcome_of_mainRun ran, passes⟩

end Expansion

end TexSource
