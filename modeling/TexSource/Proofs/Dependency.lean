import Mathlib.Data.List.Nodup
import TexSource.Dependency
import TexSource.FileSystem.Snapshot
import TexSource.Proofs.Expansion.Failures
import TexSource.Proofs.Expansion.Provenance
import TexSource.Proofs.FileTable.Operations
import TexSource.Proofs.Highlight.Stretches

/-!
# Completeness of dependencies

Every command of a document is looked at once, behind the commands in its arguments
(`Dependency.Ordered.mentions`). The names that it gives are looked up one by one, and what is found
is listed once, in the order of the first names that lead to it (`Dependency.Gathered.note`). So the
files of a document are all files that names in it lead to, in the order in which the commands end
(`Dependency.collect_parse`). A name in the arguments of a command whose own names come first is
still listed before these (`Dependency.collect_nestedPair`).

Names are not answered for if the file system fails, or a rule counts backwards from the last
argument of a command that has too few. Otherwise they all are (`Dependency.answerable_of_total`).
-/

namespace TexSource

/-- The command that a node is. -/
def Node.command? : Node → Option Command
  | .command invocation => some invocation
  | _ => none

/-- The commands among nodes are the nodes that are commands. -/
theorem mem_filterMap_command {nodes : List Node} {invocation : Command} :
    invocation ∈ nodes.filterMap Node.command? ↔ .command invocation ∈ nodes := by
  rw [List.mem_filterMap]
  constructor
  · rintro ⟨node, member, found⟩
    cases node with
    | command =>
      cases found
      exact member
    | _ => cases found
  · exact fun member => ⟨_, member, rfl⟩

/-- The commands of a document, every one before those in its arguments. -/
def Document.commands (document : Document) : List Command :=
  document.walk.filterMap Node.command?

/-- A command stands in the arguments of another one. -/
def Command.LiesIn (inner outer : Command) : Prop :=
  Node.command inner ∈ walkArguments outer.arguments

/-- Of some tokens those of a command stand before those of another one. -/
def Command.Precedes (tokens : List Placed) (first second : Command) : Prop :=
  (first.placed ++ second.placed).Sublist tokens

/-- A command ends before another one: it stands in its arguments or before it. -/
def Command.EndsBefore (tokens : List Placed) (first second : Command) : Prop :=
  first.LiesIn second ∨ first.Precedes tokens second

namespace Dependency

/-- Mentions are uses of the commands of a walk, in the order in which the commands end. -/
structure Ordered (ancestors : List FileId) (mentions : List Mention) (walk : List Node)
    (tokens : List Placed) (uses : List Command) : Prop where
  mentions : mentions = uses.map (.use · ancestors)
  commands : uses.Perm (walk.filterMap Node.command?)
  within : ∀ invocation ∈ uses, invocation.placed.Sublist tokens
  ends : uses.Pairwise (Command.EndsBefore tokens)

namespace Ordered

variable {ancestors : List FileId} {mentions laterMentions : List Mention} {walk later : List Node}
  {tokens others : List Placed} {uses laterUses : List Command}

theorem nil (ancestors : List FileId) : Ordered ancestors [] [] [] [] :=
  ⟨rfl, .nil, List.forall_mem_nil _, .nil⟩

/-- More tokens. -/
theorem mono (ordered : Ordered ancestors mentions walk tokens uses)
    (among : tokens.Sublist others) : Ordered ancestors mentions walk others uses where
  mentions := ordered.mentions
  commands := ordered.commands
  within invocation member := (ordered.within invocation member).trans among
  ends := ordered.ends.imp fun before => before.imp_right fun apart => apart.trans among

/-- Below a node that is no command. -/
theorem below (ordered : Ordered ancestors mentions walk tokens uses) {node : Node}
    (other : node.command? = none) : Ordered ancestors mentions (node :: walk) tokens uses :=
  { ordered with commands := by simpa [other] using ordered.commands }

/-- One behind the other. -/
theorem append (first : Ordered ancestors mentions walk tokens uses)
    (second : Ordered ancestors laterMentions later others laterUses) :
    Ordered ancestors (mentions ++ laterMentions) (walk ++ later) (tokens ++ others)
      (uses ++ laterUses) where
  mentions := by rw [first.mentions, second.mentions, List.map_append]
  commands := by
    rw [List.filterMap_append]
    exact first.commands.append second.commands
  within := List.forall_mem_append.mpr
    ⟨(first.mono (List.sublist_append_left ..)).within,
      (second.mono (List.sublist_append_right ..)).within⟩
  ends := List.pairwise_append.mpr
    ⟨(first.mono (List.sublist_append_left ..)).ends,
      (second.mono (List.sublist_append_right ..)).ends,
      fun one among another also => .inr ((first.within one among).append
        (second.within another also))⟩

/-- The commands in the arguments of a command, and the command itself. -/
theorem command {id : NodeId} {name : Text} {head : Placed} {star : Option Placed}
    {arguments : List Argument} {span : Span}
    (ordered : Ordered ancestors mentions (walkArguments arguments) (placedArguments arguments)
      uses) :
    Ordered ancestors (mentions ++ [.use ⟨id, name, head, star, arguments, span⟩ ancestors])
      (Command.walk ⟨id, name, head, star, arguments, span⟩)
      (Command.placed ⟨id, name, head, star, arguments, span⟩)
      (uses ++ [⟨id, name, head, star, arguments, span⟩]) where
  mentions := by rw [ordered.mentions, List.map_append, List.map_singleton]
  commands := by
    rw [Command.walk, List.filterMap_cons]
    exact (List.perm_append_singleton _ _).trans (ordered.commands.cons _)
  within := by
    rw [List.forall_mem_append, List.forall_mem_singleton]
    exact ⟨(ordered.mono (List.sublist_append_right ..)).within, .refl _⟩
  ends := by
    refine List.pairwise_append.mpr ⟨(ordered.mono (List.sublist_append_right ..)).ends,
      List.pairwise_singleton _ _, fun inner among outer last => ?_⟩
    obtain rfl := List.mem_singleton.mp last
    exact .inl (mem_filterMap_command.mp (ordered.commands.subset among))

end Ordered

mutual

/-- The mentions under a node are uses of the commands under it. -/
theorem ordered_node (ancestors : List FileId) : (node : Node) →
    (∀ below ∈ node.walk, below.isInclusion = false) →
      ∃ uses, Ordered ancestors (mentions ancestors node) node.walk node.placed uses
  | .leaf _ _, _ => ⟨[], (Ordered.nil ancestors).below rfl |>.mono (List.nil_sublist _)⟩
  | .group id delimiter opener children closer span, own => by
    obtain ⟨uses, inside⟩ := ordered_all ancestors children fun below member =>
      own below (List.mem_cons_of_mem _ member)
    exact ⟨uses, (inside.mono (by simp [Node.placed])).below rfl⟩
  | .math _ _ _ children _ _, own => by
    obtain ⟨uses, inside⟩ := ordered_all ancestors children fun below member =>
      own below (List.mem_cons_of_mem _ member)
    exact ⟨uses, (inside.mono (by simp [Node.placed])).below rfl⟩
  | .command invocation, own => ordered_command ancestors invocation own
  | .environment _ _ opening body none _ _, own => by
    obtain ⟨heads, head⟩ := ordered_command ancestors opening fun below member =>
      own below (by simp [Node.walk, member])
    obtain ⟨uses, inside⟩ := ordered_all ancestors body fun below member =>
      own below (by simp [Node.walk, member])
    exact ⟨_, (head.append inside).below rfl⟩
  | .environment _ _ opening body (some ending) _ _, own => by
    obtain ⟨heads, head⟩ := ordered_command ancestors opening fun below member =>
      own below (by simp [Node.walk, member])
    obtain ⟨uses, inside⟩ := ordered_all ancestors body fun below member =>
      own below (by simp [Node.walk, member])
    obtain ⟨ends, foot⟩ := ordered_command ancestors ending fun below member =>
      own below (by simp [Node.walk, member])
    exact ⟨_, ((head.append inside).append foot).below rfl⟩
  | .inclusion _ _ _ _ _ _, own => by
    have := own _ List.mem_cons_self
    cases this

/-- The mentions of a command are ordered as its tokens are. -/
theorem ordered_command (ancestors : List FileId) : (invocation : Command) →
    (∀ below ∈ invocation.walk, below.isInclusion = false) →
      ∃ uses, Ordered ancestors (mentionsOfCommand ancestors invocation) invocation.walk
        invocation.placed uses
  | ⟨_, _, _, _, arguments, _⟩, own => by
    obtain ⟨uses, inside⟩ := ordered_arguments ancestors arguments fun below member =>
      own below (List.mem_cons_of_mem _ member)
    exact ⟨_, inside.command⟩

/-- The mentions of nodes are ordered as their tokens are. -/
theorem ordered_all (ancestors : List FileId) : (nodes : List Node) →
    (∀ below ∈ walkAll nodes, below.isInclusion = false) →
      ∃ uses, Ordered ancestors (mentionsAll ancestors nodes) (walkAll nodes) (placedAll nodes) uses
  | [], _ => ⟨[], .nil ancestors⟩
  | node :: rest, own => by
    obtain ⟨front, first⟩ := ordered_node ancestors node fun below member =>
      own below (List.mem_append_left _ member)
    obtain ⟨back, later⟩ := ordered_all ancestors rest fun below member =>
      own below (List.mem_append_right _ member)
    exact ⟨_, first.append later⟩

theorem ordered_arguments (ancestors : List FileId) : (arguments : List Argument) →
    (∀ below ∈ walkArguments arguments, below.isInclusion = false) →
      ∃ uses, Ordered ancestors (mentionsOfArguments ancestors arguments)
        (walkArguments arguments) (placedArguments arguments) uses
  | [], _ => ⟨[], .nil ancestors⟩
  | ⟨_, leading, content⟩ :: rest, own => by
    obtain ⟨front, blanks⟩ := ordered_all ancestors leading fun below member =>
      own below (by simp [walkArguments, member])
    obtain ⟨uses, inside⟩ := ordered_node ancestors content fun below member =>
      own below (by simp [walkArguments, member])
    obtain ⟨back, later⟩ := ordered_arguments ancestors rest fun below member =>
      own below (by simp [walkArguments, member])
    exact ⟨_, (blanks.append inside).append later⟩

end

/-- A name that a command gives under the rule for it, with the argument that it stands in and its
place among the names there. -/
structure Reference where
  invocation : Command
  rule : Rule
  argument : Node
  place : Nat
  name : Text

/-- The mandatory arguments of a command. -/
def mandatoryOf (invocation : Command) : List Node :=
  (invocation.arguments.filter fun argument => argument.kind = .mandatory).map Argument.content

/-- The argument of a command that a rule counts, if there are that many. -/
def argumentOf (rule : Rule) (invocation : Command) : Except CollectError (Option Node) :=
  ruleArgument rule (mandatoryOf invocation)

/-- Names in an argument, counted from a place. -/
def referencesIn (rule : Rule) (invocation : Command) (argument : Node) (place : Nat)
    (names : List Text) : List Reference :=
  (names.zipIdx place).map fun (name, place) => ⟨invocation, rule, argument, place, name⟩

/-- The names that a command gives under the last rule for it. -/
def referencesOf (rules : List Rule) (invocation : Command) :
    Except CollectError (List Reference) :=
  match ruleFor? rules invocation.name with
  | none => .ok []
  | some rule => (argumentOf rule invocation).map fun argument =>
    argument.toList.flatMap fun content =>
      referencesIn rule invocation content 0 (namesIn rule content)

/-- The names in a document that stand for files. -/
def references (rules : List Rule) (document : Document) : List Reference :=
  document.commands.flatMap fun invocation => (referencesOf rules invocation).toOption.getD []

namespace Reference

/-- A name is read before another one: its command stands in the arguments of the other's or before
it in the source, or they stand in this order in one argument. -/
def Before (first second : Reference) : Prop :=
  first.invocation.LiesIn second.invocation ∨
    first.invocation.span.stop.offset ≤ second.invocation.span.start.offset ∨
    first.invocation = second.invocation ∧ first.place < second.place

/-- The report on a name that leads to no file. -/
def warning (reference : Reference) : Diagnostic :=
  (Problem.dependencyNotFound reference.invocation.name reference.name).reportAt
    reference.invocation.span reference.invocation.id

variable (files : FileSystem) (table : FileTable) (ancestors : List FileId)

/-- The file that a name leads to, if it can be told. -/
def target (reference : Reference) : Except CollectError (Option Path) :=
  (table.resolve files reference.name ancestors reference.rule.extensions).mapError .file

/-- Whether a reference leads to a path. -/
def LeadsTo (reference : Reference) (path : Path) : Prop :=
  (reference.target files table ancestors).toOption = some (some path)

/-- Whether a name leads to no file. -/
def isMissing (reference : Reference) : Bool :=
  (reference.target files table ancestors).toOption = some none

instance (reference : Reference) (path : Path) :
    Decidable (reference.LeadsTo files table ancestors path) :=
  inferInstanceAs (Decidable (_ = _))

end Reference

/-- Notes what a name leads to. -/
def Collection.note (files : FileSystem) (collection : Collection)
    (answer : Reference × Option Path) : Collection :=
  match answer.2 with
  | some path => collection.addPath (files.canonical path)
  | none => { collection with diagnostics := collection.diagnostics.push answer.1.warning }

/-- The names of a command, each with what it leads to. -/
def answersOf (files : FileSystem) (table : FileTable) (rules : List Rule)
    (ancestors : List FileId) (invocation : Command) :
    Except CollectError (List (Reference × Option Path)) := do
  (← referencesOf rules invocation).mapM fun reference =>
    (reference.target files table ancestors).map (reference, ·)

variable {files : FileSystem} {table : FileTable} {rules : List Rule} {ancestors : List FileId}

/-- Steps that fail apart from what they add to do so one by one. -/
theorem foldlM_map {α β σ : Type} (ask : α → Except CollectError β) (add : σ → β → σ)
    (items : List α) (start : σ) :
    items.foldlM (fun state item => (ask item).map (add state)) start =
      (items.mapM ask).map fun answers => answers.foldl add start := by
  induction items generalizing start with
  | nil => rfl
  | cons item rest ih =>
    rw [List.foldlM_cons, List.mapM_cons]
    cases ask item with
    | error error => rfl
    | ok answer =>
      change rest.foldlM _ (add start answer) = _
      rw [ih]
      cases rest.mapM ask <;> rfl

/-- The names in an argument are looked up one by one. -/
theorem addNames_eq (rule : Rule) (invocation : Command) (content : Node) (names : List Text)
    (place : Nat) (collection : Collection) :
    collection.addNames files table rule invocation ancestors names =
      ((referencesIn rule invocation content place names).mapM fun reference : Reference =>
        (reference.target files table ancestors).map (reference, ·)).map fun answers =>
          answers.foldl (Collection.note files) collection := by
  rw [← foldlM_map, referencesIn]
  induction names generalizing place collection with
  | nil => rfl
  | cons name rest ih =>
    rw [Collection.addNames, List.zipIdx_cons, List.map_cons, List.foldlM_cons, Reference.target]
    cases table.resolve files name ancestors rule.extensions with
    | error error => rfl
    | ok path =>
      cases path with
      | none => exact ih (place + 1) _
      | some path => exact ih (place + 1) _

/-- A use adds the answers of its references one after another. -/
theorem addMention_eq (collection : Collection) (invocation : Command) :
    collection.addMention files table rules (.use invocation ancestors) =
      (answersOf files table rules ancestors invocation).map fun answers =>
        answers.foldl (Collection.note files) collection := by
  rw [Collection.addMention, answersOf, referencesOf]
  cases ruleFor? rules invocation.name with
  | none => rfl
  | some rule =>
    dsimp only
    rw [← mandatoryOf, ← argumentOf]
    rcases argumentOf rule invocation with error | _ | content
    · rfl
    · rfl
    · refine (addNames_eq rule invocation content (namesIn rule content) 0 collection).trans ?_
      rw [Except.map, Option.toList_some, List.flatMap_singleton]
      rfl

/-- **Collecting.** The names in a document without inclusions are looked up command by command, and
what they lead to is noted in the order in which the commands end. -/
theorem collect_eq {document : Document} {uses : List Command}
    (ordered : Ordered [document.fileId] (mentions [document.fileId] document.root)
      document.walk document.root.placed uses) :
    collect files table rules document =
      (uses.mapM (answersOf files table rules [document.fileId])).map fun answers =>
        let collection := answers.flatten.foldl (Collection.note files) ⟨#[], #[]⟩
        (collection.paths.toList, collection.diagnostics.toList) := by
  have steps := foldlM_map (answersOf files table rules [document.fileId])
    (fun collection answers => answers.foldl (Collection.note files) collection) uses ⟨#[], #[]⟩
  simp only [← addMention_eq] at steps
  rw [collect, ordered.mentions, List.foldlM_map, steps]
  cases uses.mapM (answersOf files table rules [document.fileId]) with
  | error error => rfl
  | ok answers =>
    simp only [List.foldl_flatten]
    rfl

/-- Every item is answered. -/
theorem mapM_eq_ok_iff {α β : Type} {ask : α → Except CollectError β} {items : List α}
    {answers : List β} :
    items.mapM ask = .ok answers ↔
      List.Forall₂ (fun item answer => ask item = .ok answer) items answers := by
  induction items generalizing answers with
  | nil =>
    rw [List.forall₂_nil_left_iff, List.mapM_nil]
    exact ⟨fun same => (Except.ok.inj same).symm, fun none => none ▸ rfl⟩
  | cons item rest ih =>
    rw [List.mapM_cons, List.forall₂_cons_left_iff]
    constructor
    · intro done
      cases asked : ask item with
      | error error =>
        rw [asked] at done
        cases done
      | ok answer =>
        rw [asked] at done
        cases later : rest.mapM ask with
        | error error =>
          rw [later] at done
          cases done
        | ok others =>
          rw [later] at done
          exact ⟨answer, others, rfl, ih.mp later, (Except.ok.inj done).symm⟩
    · rintro ⟨answer, others, asked, later, rfl⟩
      rw [asked, ih.mpr later]
      rfl

/-- All questions are answered together if each one is. -/
theorem exists_mapM_iff {α β : Type} {ask : α → Except CollectError β} {items : List α} :
    (∃ answers, items.mapM ask = .ok answers) ↔
      ∀ item ∈ items, ∃ answer, ask item = .ok answer := by
  simp only [mapM_eq_ok_iff]
  induction items with
  | nil => simp
  | cons item rest ih =>
    rw [List.forall_mem_cons, ← ih]
    constructor
    · rintro ⟨_, _ | ⟨first, later⟩⟩
      exact ⟨⟨_, first⟩, _, later⟩
    · rintro ⟨⟨answer, first⟩, others, later⟩
      exact ⟨answer :: others, .cons first later⟩

/-- What is found in names that were looked up: every file once, in the order of the first names
that lead to it, and a report for every name that leads to none. -/
structure Gathered (answers : List (Reference × Option Path)) (collection : Collection) : Prop where
  distinct : collection.paths.toList.Nodup
  complete : ∀ path, path ∈ collection.paths.toList ↔ ∃ answer ∈ answers, answer.2 = some path
  order : collection.paths.toList.Pairwise fun earlier later => ∃ before first after,
    answers = before ++ first :: after ∧ first.2 = some earlier ∧
      ∀ answer ∈ before ++ [first], answer.2 ≠ some later
  warnings : collection.diagnostics.toList =
    (answers.filter (·.2.isNone)).map fun answer => answer.1.warning

theorem gathered_nil : Gathered [] ⟨#[], #[]⟩ where
  distinct := .nil
  complete := by simp
  order := .nil
  warnings := rfl

variable {answers : List (Reference × Option Path)} {collection : Collection}

/-- The order of files that are found stays with another name. -/
theorem Gathered.order_concat (gathered : Gathered answers collection)
    (answer : Reference × Option Path) :
    collection.paths.toList.Pairwise fun earlier later => ∃ before first after,
      answers ++ [answer] = before ++ first :: after ∧ first.2 = some earlier ∧
        ∀ answer ∈ before ++ [first], answer.2 ≠ some later :=
  gathered.order.imp fun ⟨before, first, after, split, rest⟩ =>
    ⟨before, first, after ++ [answer], by rw [split, List.append_assoc, List.cons_append], rest⟩

/-- **One name.** -/
theorem Gathered.note (gathered : Gathered answers collection) {answer : Reference × Option Path}
    (canonical : ∀ path ∈ answer.2, files.canonical path = path) :
    Gathered (answers ++ [answer]) (collection.note files answer) := by
  have order := gathered.order_concat answer
  obtain ⟨reference, none | path⟩ := answer
  · refine ⟨gathered.distinct, fun path => ?_, order, ?_⟩
    · simpa [Collection.note] using gathered.complete path
    · simp [Collection.note, gathered.warnings]
  · rw [Collection.note]
    dsimp only
    rw [canonical path rfl, Collection.addPath]
    have listed (other : Path) : (∃ answer ∈ answers ++ [(reference, some path)],
        answer.2 = some other) ↔ other ∈ collection.paths.toList ∨ other = path := by
      rw [gathered.complete]
      simp [or_and_right, exists_or, eq_comm]
    split
    · rename_i known
      have member : path ∈ collection.paths.toList := by simpa using known
      refine ⟨gathered.distinct, fun other => ?_, order, by simp [gathered.warnings]⟩
      rw [listed]
      exact ⟨.inl, fun found => found.elim id fun same => same ▸ member⟩
    · rename_i unknown
      have fresh : path ∉ collection.paths.toList := by simpa using unknown
      refine ⟨?_, fun other => ?_, ?_, by simp [gathered.warnings]⟩
      · rw [Array.toList_push]
        simpa using List.Nodup.concat fresh gathered.distinct
      · rw [listed, Array.toList_push, List.mem_append, List.mem_singleton]
      · rw [Array.toList_push]
        refine List.pairwise_append.mpr ⟨order, List.pairwise_singleton _ _, ?_⟩
        intro earlier known later last
        obtain rfl := List.mem_singleton.mp last
        obtain ⟨first, among, leads⟩ := (gathered.complete earlier).mp known
        obtain ⟨before, after, split⟩ := List.append_of_mem among
        refine ⟨before, first, after ++ [(reference, some later)], by simp [split], leads, ?_⟩
        intro answer ahead found
        refine fresh ((gathered.complete later).mpr ⟨answer, ?_, found⟩)
        rw [split, ← List.singleton_append, ← List.append_assoc]
        exact List.mem_append_left _ ahead

/-- **All names.** -/
theorem Gathered.noteAll (gathered : Gathered answers collection)
    {more : List (Reference × Option Path)}
    (canonical : ∀ answer ∈ more, ∀ path ∈ answer.2,
      files.canonical path = path) :
    Gathered (answers ++ more) (more.foldl (Collection.note files) collection) := by
  induction more generalizing answers collection with
  | nil => simpa using gathered
  | cons answer rest ih =>
    rw [List.forall_mem_cons] at canonical
    rw [← List.singleton_append, ← List.append_assoc]
    exact ih (gathered.note canonical.1) canonical.2

/-- The names of a command are answered if they all are. -/
theorem answersOf_eq_ok_iff {invocation : Command} :
    answersOf files table rules ancestors invocation = .ok answers ↔
      referencesOf rules invocation = .ok (answers.map Prod.fst) ∧
        ∀ answer ∈ answers, answer.1.target files table ancestors = .ok answer.2 := by
  unfold answersOf
  cases referencesOf rules invocation with
  | error error => exact ⟨nofun, nofun⟩
  | ok named =>
    change named.mapM (fun reference => (reference.target files table ancestors).map
      (reference, ·)) = _ ↔ _
    rw [mapM_eq_ok_iff]
    constructor
    · intro asked
      induction asked with
      | nil => exact ⟨rfl, List.forall_mem_nil _⟩
      | @cons reference answer _ _ first _ ih =>
        obtain ⟨same, found⟩ := ih
        cases asked : reference.target files table ancestors with
        | error error =>
          rw [asked] at first
          cases first
        | ok target =>
          rw [asked] at first
          cases first
          exact ⟨by rw [Except.ok.inj same]; rfl, List.forall_mem_cons.mpr ⟨asked, found⟩⟩
    · rintro ⟨same, found⟩
      rw [Except.ok.inj same, List.forall₂_map_left_iff, List.forall₂_same]
      intro answer member
      rw [found answer member]
      rfl

/-- A command is answered if it has the argument and its names are answered. -/
theorem exists_answersOf_iff {invocation : Command} :
    (∃ answers, answersOf files table rules ancestors invocation = .ok answers) ↔
      (∃ found, referencesOf rules invocation = .ok found) ∧
        ∀ reference ∈ (referencesOf rules invocation).toOption.getD [],
          ∃ target, reference.target files table ancestors = .ok target := by
  unfold answersOf
  cases referencesOf rules invocation with
  | error error => simp [bind, Except.bind]
  | ok named =>
    change (∃ answers, named.mapM (fun reference => (reference.target files table ancestors).map
      (reference, ·)) = .ok answers) ↔ _
    have each (reference : Reference) :
        (∃ answer, (reference.target files table ancestors).map (reference, ·) = .ok answer) ↔
          ∃ target, reference.target files table ancestors = .ok target := by
      cases reference.target files table ancestors <;> simp [Except.map]
    simp only [exists_mapM_iff, each]
    exact ⟨fun all => ⟨⟨named, rfl⟩, all⟩, And.right⟩

/-- Commands that are answered one by one are answered together. -/
theorem flatten_answers {uses : List Command} {answers : List (List (Reference × Option Path))}
    (answered : List.Forall₂ (fun invocation found =>
      answersOf files table rules ancestors invocation = .ok found) uses answers) :
    answers.flatten.map Prod.fst =
        (uses.flatMap fun invocation => (referencesOf rules invocation).toOption.getD []) ∧
      ∀ answer ∈ answers.flatten, answer.1.target files table ancestors = .ok answer.2 := by
  induction answered with
  | nil => exact ⟨rfl, List.forall_mem_nil _⟩
  | cons first _ ih =>
    obtain ⟨named, found⟩ := answersOf_eq_ok_iff.mp first
    refine ⟨?_, ?_⟩
    · rw [List.flatten_cons, List.map_append, ih.1, List.flatMap_cons, named]
      rfl
    · rw [List.flatten_cons, List.forall_mem_append]
      exact ⟨found, ih.2⟩

variable {source : Text} {catcodes : Catcode.Table} {commands : CommandTable} {fileId : FileId}
  {document : Document}

/-- The names of a command stand in one argument, by the rule for it. -/
theorem referencesOf_cases (rules : List Rule) (invocation : Command) :
    (referencesOf rules invocation).toOption.getD [] = [] ∨
      ∃ rule content, ruleFor? rules invocation.name = some rule ∧
        (referencesOf rules invocation).toOption.getD [] =
          referencesIn rule invocation content 0 (namesIn rule content) := by
  unfold referencesOf
  cases ruleFor? rules invocation.name with
  | none => exact .inl rfl
  | some rule =>
    dsimp only
    rcases argumentOf rule invocation with error | _ | content
    · exact .inl rfl
    · exact .inl rfl
    · exact .inr ⟨rule, content, rfl, List.flatMap_singleton ..⟩

/-- A reference is of the command that makes it. -/
theorem invocation_of_mem {invocation : Command} {reference : Reference}
    (member : reference ∈ (referencesOf rules invocation).toOption.getD []) :
    reference.invocation = invocation := by
  obtain none | ⟨rule, content, -, same⟩ := referencesOf_cases rules invocation
  · rw [none] at member
    cases member
  · rw [same] at member
    obtain ⟨_, _, rfl⟩ := List.mem_map.mp member
    rfl

/-- Of several rules for a command the last one counts. -/
theorem rule_of_mem_references {reference : Reference}
    (member : reference ∈ references rules document) :
    ∃ before after, rules = before ++ reference.rule :: after ∧
      reference.rule.command = reference.invocation.name ∧
      ∀ rule ∈ after, rule.command ≠ reference.invocation.name := by
  obtain ⟨invocation, -, named⟩ := List.mem_flatMap.mp member
  obtain rfl := invocation_of_mem named
  obtain none | ⟨rule, content, known, list⟩ := referencesOf_cases rules reference.invocation
  · rw [none] at named
    cases named
  · rw [list] at named
    obtain ⟨_, _, same⟩ := List.mem_map.mp named
    rw [← congrArg Reference.rule same]
    obtain ⟨fits, after, before, split, others⟩ := List.find?_eq_some_iff_append.mp known
    refine ⟨before.reverse, after.reverse, ?_, of_decide_eq_true fits, fun other listed => ?_⟩
    · simpa using congrArg List.reverse split
    · simpa using others other (List.mem_reverse.mp listed)

/-- The references of a command stand in the order of their places. -/
theorem pairwise_place (rules : List Rule) (invocation : Command) :
    ((referencesOf rules invocation).toOption.getD []).Pairwise fun first second =>
      first.place < second.place := by
  obtain none | ⟨rule, content, -, same⟩ := referencesOf_cases rules invocation
  · rw [none]
    exact .nil
  · rw [same, referencesIn, List.pairwise_map]
    have places : (((namesIn rule content).zipIdx).map Prod.snd).Pairwise (· < ·) := by
      rw [List.zipIdx_map_snd]
      exact List.pairwise_lt_range'
    exact List.pairwise_map.mp places

/-- Every command of a parsed document is framed by its tokens. -/
theorem framed_command (parsed : Document.parse source catcodes commands fileId = .ok document)
    {invocation : Command} (listed : invocation ∈ document.commands) :
    (Node.command invocation).Framed := by
  obtain ⟨tokens, reports, diagnostics, read, rfl⟩ := Expansion.document_of_parse parsed
  obtain ⟨tiles, last⟩ := Document.tiles_contentOf_of_lex read
  have laid := Document.laidAlong_of_tiles tiles last commands
  obtain ⟨id, name, head, star, arguments, span⟩ := invocation
  exact laid.framed _ (mem_filterMap_command.mp listed) (List.cons_ne_nil _ _)

/-- A command whose tokens stand before those of another one stops where that one starts, or before
it. -/
theorem stop_le_start (parsed : Document.parse source catcodes commands fileId = .ok document)
    {first second : Command} (precedes : first.Precedes document.root.placed second)
    (one : first ∈ document.commands) (another : second ∈ document.commands) :
    first.span.stop.offset ≤ second.span.start.offset := by
  obtain ⟨_, last, _, atEnd, _, stop⟩ := framed_command parsed one
  obtain ⟨head, _, atStart, _, start, _⟩ := framed_command parsed another
  have apart := (Document.apart_of_parse parsed).1.ordered.sublist (precedes.map Placed.token)
  rw [List.map_append, List.pairwise_append] at apart
  change (Node.command first).span.stop.offset ≤ (Node.command second).span.start.offset
  rw [stop, start]
  exact apart.2.2 _ (List.mem_map_of_mem (List.mem_of_getLast? atEnd)) _
    (List.mem_map_of_mem (List.mem_of_mem_head? atStart))

/-- The names of commands that are in the order in which they end are in order. -/
theorem pairwise_before
    (parsed : Document.parse source catcodes commands fileId = .ok document) (rules : List Rule)
    {uses : List Command} (listed : uses.Perm document.commands)
    (ends : uses.Pairwise (Command.EndsBefore document.root.placed)) :
    (uses.flatMap fun invocation => (referencesOf rules invocation).toOption.getD []).Pairwise
      Reference.Before := by
  refine List.pairwise_flatMap.mpr ⟨fun invocation _ => ?_, ends.imp_of_mem ?_⟩
  · refine (pairwise_place rules invocation).imp_of_mem fun first second places =>
      .inr (.inr ⟨?_, places⟩)
    rw [invocation_of_mem first, invocation_of_mem second]
  · intro one another known known' before first among second also
    rw [Reference.Before, invocation_of_mem among, invocation_of_mem also]
    exact before.imp_right fun precedes =>
      .inl (stop_le_start parsed precedes (listed.subset known) (listed.subset known'))

/-- What is found is canonical. -/
theorem canonical_of_firstFile {candidates : List Path} {path : Path}
    (found : FileTable.firstFile files candidates = .ok (some path)) :
    path.isAbsolute = true ∧ files.canonical path = path := by
  induction candidates with
  | nil => cases found
  | cons candidate rest ih =>
    rw [FileTable.firstFile] at found
    cases asked : files.isFile candidate with
    | error error =>
      rw [asked] at found
      cases found
    | ok isFile =>
      rw [asked] at found
      cases isFile with
      | false => exact ih found
      | true =>
        cases found
        exact ⟨files.isAbsolute_canonical candidate, files.canonical_canonical candidate⟩

/-- What a reference leads to is canonical and absolute. -/
theorem canonical_of_target {reference : Reference} {path : Path}
    (found : reference.target files table ancestors = .ok (some path)) :
    path.isAbsolute = true ∧ files.canonical path = path := by
  unfold Reference.target at found
  cases resolved : table.resolve files reference.name ancestors reference.rule.extensions with
  | error error =>
    rw [resolved] at found
    cases found
  | ok target =>
    rw [resolved] at found
    cases found
    unfold FileTable.resolve at resolved
    dsimp only at resolved
    split at resolved
    · exact canonical_of_firstFile resolved
    · exact canonical_of_firstFile resolved

/-- No rule counts backwards beyond the first argument of a command. -/
def Counts (rules : List Rule) (invocation : Command) : Prop :=
  ∀ rule, ruleFor? rules invocation.name = some rule →
    -(mandatoryOf invocation).length ≤ rule.argument

/-- The references of a command are found exactly if no rule counts too far backwards. -/
theorem exists_referencesOf_iff {invocation : Command} :
    (∃ found, referencesOf rules invocation = .ok found) ↔ Counts rules invocation := by
  unfold referencesOf Counts
  cases ruleFor? rules invocation.name with
  | none => simp
  | some rule =>
    have counted : (∃ found, argumentOf rule invocation = .ok found) ↔
        -(mandatoryOf invocation).length ≤ rule.argument := by
      unfold argumentOf ruleArgument
      generalize mandatoryOf invocation = arguments
      cases rule.argument with
      | ofNat index => simp
      | negSucc index =>
        rcases Nat.lt_or_ge index arguments.length with inside | beyond
        · simp [inside]; omega
        · simp [beyond]; omega
    simp only [Option.some.injEq, forall_eq', ← counted]
    cases argumentOf rule invocation <;> simp [Except.map]

/-- All questions about the names in a document can be answered: commands have the arguments that
rules count from the last one, and the file system answers for all names. -/
structure Answerable (files : FileSystem) (table : FileTable) (rules : List Rule)
    (document : Document) : Prop where
  arguments : ∀ invocation ∈ document.commands, Counts rules invocation
  targets : ∀ reference ∈ references rules document,
    ∃ target, reference.target files table [document.fileId] = .ok target

/-- Rules that count from the first argument, and a file system that answers all questions. -/
theorem answerable_of_total (counted : ∀ rule ∈ rules, 0 ≤ rule.argument)
    (answers : ∀ path, ∃ isFile, files.isFile path = .ok isFile) (table : FileTable)
    (document : Document) : Answerable files table rules document where
  arguments invocation _ rule known := by
    have nonnegative := counted rule (List.mem_reverse.mp (List.mem_of_find?_eq_some known))
    omega
  targets reference _ := by
    unfold Reference.target
    cases resolved : table.resolve files reference.name [document.fileId]
        reference.rule.extensions with
    | ok target => exact ⟨target, rfl⟩
    | error error =>
      obtain ⟨path, refused⟩ := Expansion.refused_of_resolve resolved
      obtain ⟨isFile, answered⟩ := answers path
      cases refused.symm.trans answered

/-- The files of a document, and a report for every name that leads to no file. -/
structure Complete (files : FileSystem) (table : FileTable) (rules : List Rule)
    (document : Document) (paths : List Path) (warnings : List Diagnostic) : Prop where
  /-- Of several rules for a command the last one counts. -/
  last : ∀ reference ∈ references rules document, ∃ before after,
    rules = before ++ reference.rule :: after ∧
      reference.rule.command = reference.invocation.name ∧
      ∀ rule ∈ after, rule.command ≠ reference.invocation.name
  distinct : paths.Nodup
  canonical : ∀ path ∈ paths,
    path.isAbsolute = true ∧ files.canonical path = path
  complete : ∀ path, path ∈ paths ↔ ∃ reference ∈ references rules document,
    reference.LeadsTo files table [document.fileId] path
  order : paths.Pairwise fun earlier later => ∃ first ∈ references rules document,
    first.LeadsTo files table [document.fileId] earlier ∧
      ∀ other ∈ references rules document,
        other.LeadsTo files table [document.fileId] later → first.Before other
  kinds : ∀ warning ∈ warnings, warning.kind = .fileNotFound ∧ warning.severity = .warning
  missing : ∃ missing : List Reference,
    missing.Perm ((references rules document).filter
      (·.isMissing files table [document.fileId])) ∧
    missing.Pairwise Reference.Before ∧ warnings = missing.map Reference.warning

section

variable {uses : List Command} {answers : List (List (Reference × Option Path))}
  (ordered : Ordered [document.fileId] (mentions [document.fileId] document.root) document.walk
    document.root.placed uses)
  (answered : List.Forall₂ (fun invocation found =>
    answersOf files table rules [document.fileId] invocation = .ok found) uses answers)

include ordered answered

/-- The names that are answered are those of the document. -/
theorem perm_references :
    (answers.flatten.map Prod.fst).Perm (references rules document) := by
  rw [(flatten_answers answered).1]
  exact ordered.commands.flatMap_right _

/-- What is noted for all names of a document is complete. -/
theorem complete_of_answers
    (parsed : Document.parse source catcodes commands fileId = .ok document) :
    let collection := answers.flatten.foldl (Collection.note files) ⟨#[], #[]⟩
    Complete files table rules document collection.paths.toList
      collection.diagnostics.toList := by
  intro collection
  obtain ⟨named, found⟩ := flatten_answers answered
  have perm := perm_references ordered answered
  have before := pairwise_before parsed rules ordered.commands ordered.ends
  rw [← named] at before
  have canonical : ∀ answer ∈ answers.flatten, ∀ path ∈ answer.2,
      path.isAbsolute = true ∧ files.canonical path = path := by
    intro answer member path leads
    exact canonical_of_target ((found answer member).trans (by rw [Option.mem_def.mp leads]))
  have gathered : Gathered answers.flatten collection :=
    gathered_nil.noteAll fun answer member path leads => (canonical answer member path leads).2
  have leads (answer : Reference × Option Path) (member : answer ∈ answers.flatten) (path : Path) :
      answer.1.LeadsTo files table [document.fileId] path ↔ answer.2 = some path := by
    rw [Reference.LeadsTo, found answer member]
    simp [Except.toOption]
  refine ⟨fun _ => rule_of_mem_references, gathered.distinct, fun path member => ?_,
    fun path => ?_, ?_, fun warning member => ?_, ?_⟩
  · obtain ⟨answer, among, known⟩ := (gathered.complete path).mp member
    exact canonical answer among path known
  · simp only [gathered.complete, ← perm.mem_iff, List.mem_map, exists_exists_and_eq_and]
    exact exists_congr fun answer => and_congr_right fun member => (leads answer member path).symm
  · refine gathered.order.imp fun {earlier later} placed => ?_
    obtain ⟨front, first, back, split, known, fresh⟩ := placed
    have among : first ∈ answers.flatten := by simp [split]
    refine ⟨first.1, perm.mem_iff.mp (List.mem_map_of_mem among),
      (leads first among earlier).mpr known, fun other member also => ?_⟩
    obtain ⟨answer, inside, rfl⟩ := List.mem_map.mp (perm.mem_iff.mpr member)
    rw [leads answer inside] at also
    rw [split, List.append_cons] at inside
    rcases List.mem_append.mp inside with ahead | behind
    · exact absurd also (fresh answer ahead)
    · rw [split, List.map_append, List.map_cons] at before
      have later := (List.pairwise_cons.mp (List.pairwise_append.mp before).2.1).1
      exact later answer.1 (List.mem_map_of_mem behind)
  · rw [gathered.warnings] at member
    obtain ⟨answer, -, rfl⟩ := List.mem_map.mp member
    exact ⟨rfl, rfl⟩
  · refine ⟨(answers.flatten.filter (·.2.isNone)).map Prod.fst, ?_, ?_, ?_⟩
    · have same : (answers.flatten.filter (·.2.isNone)).map Prod.fst =
          (answers.flatten.map Prod.fst).filter (·.isMissing files table [document.fileId]) := by
        rw [List.filter_map]
        refine congrArg (List.map Prod.fst) (List.filter_congr fun answer member => ?_)
        rw [Function.comp_apply, Reference.isMissing, found answer member]
        cases answer.2 <;> simp [Except.toOption]
      rw [same]
      exact perm.filter _
    · exact before.sublist (List.filter_sublist.map Prod.fst)
    · rw [gathered.warnings, List.map_map]
      rfl

end

/-- **Dependencies.** The files of a parsed document are collected if all questions about its names
can be answered, and then they are complete, once each, in the order in which the names are read. -/
theorem collect_parse (parsed : Document.parse source catcodes commands fileId = .ok document)
    (files : FileSystem) (table : FileTable) (rules : List Rule) :
    ((∃ paths warnings, collect files table rules document = .ok (paths, warnings)) ↔
      Answerable files table rules document) ∧
      ∀ paths warnings, collect files table rules document = .ok (paths, warnings) →
        Complete files table rules document paths warnings := by
  obtain ⟨uses, ordered⟩ :=
    ordered_node [document.fileId] document.root (Document.own_of_parse parsed)
  rw [collect_eq ordered]
  refine ⟨?_, fun paths warnings collected => ?_⟩
  · have returns : (∃ paths warnings, (uses.mapM (answersOf files table rules
        [document.fileId])).map (fun answers =>
          let collection := answers.flatten.foldl (Collection.note files) ⟨#[], #[]⟩
          (collection.paths.toList, collection.diagnostics.toList)) = .ok (paths, warnings)) ↔
        ∃ answers, uses.mapM (answersOf files table rules [document.fileId]) = .ok answers := by
      cases uses.mapM (answersOf files table rules [document.fileId]) <;> simp [Except.map]
    rw [returns, exists_mapM_iff]
    simp only [exists_answersOf_iff, exists_referencesOf_iff, ordered.commands.mem_iff]
    constructor
    · intro all
      refine ⟨fun invocation listed => (all invocation listed).1, fun reference member => ?_⟩
      obtain ⟨invocation, listed, named⟩ := List.mem_flatMap.mp member
      exact (all invocation listed).2 reference named
    · intro answerable invocation listed
      exact ⟨answerable.arguments invocation listed, fun reference named =>
        answerable.targets reference (List.mem_flatMap.mpr ⟨invocation, listed, named⟩)⟩
  · cases asked : uses.mapM (answersOf files table rules [document.fileId]) with
    | error error =>
      rw [asked] at collected
      cases collected
    | ok answers =>
      rw [asked] at collected
      cases collected
      exact complete_of_answers ordered (mapM_eq_ok_iff.mp asked) parsed

/-- A command whose first argument names a file, with another command of this kind in its second
argument. -/
def nestedPair : Text := "\\href\x7ba\x7d\x7b\\input\x7bb\x7d\x7d"

/-- Rules for a link and for an inclusion, each with one file name. -/
def pairRules : List Rule :=
  [{ command := "href", extensions := [".tex"] }, { command := "input", extensions := [".tex"] }]

/-- A disk with two files. -/
def pairDisk : FileSystem :=
  FileSystem.Snapshot.toFileSystem <| FileSystem.Snapshot.insert
    (FileSystem.Snapshot.insert ⟨⟨.slash, []⟩, []⟩ ["a.tex"] (.file [])) ["b.tex"] (.file [])

/-- Both files are found. -/
theorem complete_nestedPair :
    ∃ document, Document.parse nestedPair .standard .standard 0 = .ok document ∧
      Complete pairDisk (.empty pairDisk.currentDirectory) pairRules document
        [⟨.slash, ["b.tex"]⟩, ⟨.slash, ["a.tex"]⟩] [] := by
  obtain ⟨document, parsed, passes⟩ := Document.exists_parse_of_any
    (by decide +kernel : (Document.parse nestedPair .standard .standard 0).toOption.any
      fun document => decide (
        collect pairDisk (.empty pairDisk.currentDirectory) pairRules document =
          .ok ([⟨.slash, ["b.tex"]⟩, ⟨.slash, ["a.tex"]⟩], [])))
  exact ⟨document, parsed, (collect_parse parsed pairDisk (.empty pairDisk.currentDirectory)
    pairRules).2 _ _ (of_decide_eq_true passes)⟩

/-- A file is listed before one that is named before it. -/
theorem collect_nestedPair :
    ∃ document, Document.parse nestedPair .standard .standard 0 = .ok document ∧
      collect pairDisk (.empty pairDisk.currentDirectory) pairRules document =
        .ok ([⟨.slash, ["b.tex"]⟩, ⟨.slash, ["a.tex"]⟩], []) ∧
      ∃ first ∈ references pairRules document,
        first.LeadsTo pairDisk (.empty pairDisk.currentDirectory) [document.fileId]
          ⟨.slash, ["a.tex"]⟩ ∧
        ∀ other ∈ references pairRules document,
          other.LeadsTo pairDisk (.empty pairDisk.currentDirectory) [document.fileId]
              ⟨.slash, ["b.tex"]⟩ →
            first.argument.span.stop.offset ≤ other.argument.span.start.offset := by
  obtain ⟨document, parsed, passes⟩ := Document.exists_parse_of_any
    (by decide +kernel : (Document.parse nestedPair .standard .standard 0).toOption.any
      fun document => decide (
        collect pairDisk (.empty pairDisk.currentDirectory) pairRules document =
          .ok ([⟨.slash, ["b.tex"]⟩, ⟨.slash, ["a.tex"]⟩], []) ∧
        ∃ first ∈ references pairRules document,
          first.LeadsTo pairDisk (.empty pairDisk.currentDirectory) [document.fileId]
            ⟨.slash, ["a.tex"]⟩ ∧
          ∀ other ∈ references pairRules document,
            other.LeadsTo pairDisk (.empty pairDisk.currentDirectory) [document.fileId]
                ⟨.slash, ["b.tex"]⟩ →
              first.argument.span.stop.offset ≤ other.argument.span.start.offset))
  exact ⟨document, parsed, of_decide_eq_true passes⟩

end Dependency

end TexSource
