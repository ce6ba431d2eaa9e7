import TexSource.Proofs.Relabeling.Labels

/-!
# Dependencies with new numbers for files

The files that a document refers to do not depend on the numbers of files
(`Dependency.concur_collect`): two file tables that mirror one file system give the same list, up
to the numbers in the reports, none of which is an error.
-/

namespace TexSource

namespace Dependency

variable {files : FileSystem} {table other : FileTable}

/-- Two collections have found the same files, and none of their reports is an error. -/
structure Collection.Alike (first second : Collection) : Prop where
  paths : first.paths = second.paths
  harmless : ∀ diagnostic ∈ first.diagnostics, diagnostic.isError = false
  twinHarmless : ∀ diagnostic ∈ second.diagnostics, diagnostic.isError = false

variable {collection twin : Collection} {ancestors twinAncestors : List FileId}

theorem Collection.Alike.addPath (alike : collection.Alike twin) (path : Path) :
    (collection.addPath path).Alike (twin.addPath path) := by
  unfold Collection.addPath
  rw [alike.paths]
  split
  · exact alike
  · exact ⟨rfl, alike.harmless, alike.twinHarmless⟩

/-- A name leads to the same file where the files around it are the same. -/
theorem resolve_of_path? (mirrors : table.Mirrors files) (twinMirrors : other.Mirrors files)
    (same : table.SameSettings other)
    (around : ancestors.map table.path? = twinAncestors.map other.path?) (name : Text)
    (extensions : List Text) :
    table.resolve files name ancestors extensions =
      other.resolve files name twinAncestors extensions := by
  have directories {table : FileTable} (mirrors : table.Mirrors files) (ids : List FileId) :
      ids.map table.directory = (ids.map table.path?).map fun path =>
        (path.map Path.parent).getD table.workingDirectory := by
    rw [List.map_map]
    exact List.map_congr_left fun id _ => mirrors.directory_eq id
  refine FileTable.resolve_congr ?_ same.workingDirectory.symm name extensions
  rw [directories mirrors, directories twinMirrors, around, same.workingDirectory]

theorem concur_addNames (mirrors : table.Mirrors files) (twinMirrors : other.Mirrors files)
    (same : table.SameSettings other)
    (around : ancestors.map table.path? = twinAncestors.map other.path?) (rule : Rule)
    (invocation twinInvocation : Command) (alike : collection.Alike twin) (names : List Text) :
    Concur Collection.Alike
      (Collection.addNames files table rule invocation ancestors collection names)
      (Collection.addNames files other rule twinInvocation twinAncestors twin names) := by
  induction names generalizing collection twin with
  | nil => exact .done alike
  | cons name rest ih =>
    unfold Collection.addNames
    rw [resolve_of_path? mirrors twinMirrors same around]
    refine ((Concur.refl _).mapError _).bind fun path path' equal => ?_
    subst equal
    refine ih ?_
    cases path with
    | some path => exact alike.addPath _
    | none =>
      refine ⟨alike.paths, fun diagnostic member => ?_, fun diagnostic member => ?_⟩
      · rcases Array.mem_push.mp member with before | rfl
        · exact alike.harmless diagnostic before
        · rfl
      · rcases Array.mem_push.mp member with before | rfl
        · exact alike.twinHarmless diagnostic before
        · rfl

/-- The arguments that a rule may name, with new numbers. -/
theorem ruleArgument_map (rule : Rule) (change : Node → Node) (arguments : List Node) :
    ruleArgument rule (arguments.map change) =
      (ruleArgument rule arguments).map (Option.map change) := by
  unfold ruleArgument
  cases rule.argument with
  | ofNat index => simp [Except.map]
  | negSucc index =>
    dsimp only
    rw [← List.map_reverse, List.getElem?_map]
    cases arguments.reverse[index]? <;> rfl

/-- The names that a command gives under a rule, if it has the argument. -/
def namesOf (rule : Rule) (invocation : Command) : Except CollectError (Option (List Text)) :=
  (ruleArgument rule ((invocation.arguments.filter fun argument =>
    argument.kind = .mandatory).map Argument.content)).map (Option.map (namesIn rule))

theorem namesOf_relabel (relabeling : Relabeling) (rule : Rule) (invocation : Command) :
    namesOf rule (invocation.relabel relabeling) = namesOf rule invocation := by
  obtain ⟨id, name, head, star, arguments, span⟩ := invocation
  have contents : ((relabelArguments relabeling arguments).filter fun argument =>
      argument.kind = .mandatory).map Argument.content =
        ((arguments.filter fun argument => argument.kind = .mandatory).map
          Argument.content).map (Node.relabel relabeling) := by
    rw [relabelArguments_eq_map, List.filter_map, List.map_map, List.map_map]
    rfl
  have names : namesIn rule ∘ Node.relabel relabeling = namesIn rule := by
    funext argument
    simp [namesIn]
  unfold namesOf
  rw [Command.relabel]
  dsimp only
  rw [contents, ruleArgument_map]
  generalize ruleArgument rule ((arguments.filter fun argument =>
    argument.kind = .mandatory).map Argument.content) = outcome
  cases outcome with
  | error error => rfl
  | ok argument => simp [Except.map, names]

theorem addMention_use (rules : List Rule) (invocation : Command) :
    Collection.addMention files table rules collection (.use invocation ancestors) =
      match ruleFor? rules invocation.name with
      | none => .ok collection
      | some rule => (namesOf rule invocation).bind fun
        | none => .ok collection
        | some names =>
          Collection.addNames files table rule invocation ancestors collection names := by
  unfold Collection.addMention
  dsimp only
  cases ruleFor? rules invocation.name with
  | none => rfl
  | some rule =>
    unfold namesOf
    dsimp only
    generalize ruleArgument rule ((invocation.arguments.filter fun argument =>
      argument.kind = .mandatory).map Argument.content) = outcome
    rcases outcome with error | _ | argument <;> rfl

theorem concur_addMention (mirrors : table.Mirrors files) (twinMirrors : other.Mirrors files)
    (same : table.SameSettings other) (rules : List Rule) (alike : collection.Alike twin)
    {mention twinMention : Mention}
    (mentions : mention.relabel table.labels = twinMention.relabel other.labels) :
    Concur Collection.Alike (collection.addMention files table rules mention)
      (twin.addMention files other rules twinMention) := by
  cases mention with
  | included path =>
    cases twinMention with
    | included twinPath =>
      cases mentions
      exact .done (alike.addPath _)
    | use => cases mentions
  | use invocation ancestors =>
    cases twinMention with
    | included => cases mentions
    | use twinInvocation twinAncestors =>
      obtain ⟨commands, files⟩ := Mention.use.inj mentions
      have around := FileTable.map_labels_file_inj.mp files
      have named : invocation.name = twinInvocation.name := by
        rw [← Command.name_relabel, commands, Command.name_relabel]
      have names (rule : Rule) : namesOf rule invocation = namesOf rule twinInvocation := by
        rw [← namesOf_relabel table.labels, commands, namesOf_relabel]
      rw [addMention_use, addMention_use, named]
      cases ruleFor? rules twinInvocation.name with
      | none => exact .done alike
      | some rule =>
        dsimp only
        rw [names]
        refine (Concur.refl _).bind fun found found' equal => ?_
        subst equal
        cases found with
        | none => exact .done alike
        | some names => exact concur_addNames mirrors twinMirrors same around _ _ _ alike names

/-- **The files that a document refers to do not depend on the numbers of files**, and that one of
them is missing is no error. -/
theorem concur_collect (mirrors : table.Mirrors files) (twinMirrors : other.Mirrors files)
    (same : table.SameSettings other) (rules : List Rule) {document twinDocument : Document}
    (documents : document.relabel table.labels = twinDocument.relabel other.labels) :
    Concur (fun found twin => found.1 = twin.1 ∧
        (∀ diagnostic ∈ found.2, diagnostic.isError = false) ∧
        ∀ diagnostic ∈ twin.2, diagnostic.isError = false)
      (collect files table rules document) (collect files other rules twinDocument) := by
  have numbers := congrArg Document.fileId documents
  have roots := congrArg Document.root documents
  rw [Document.fileId_relabel, Document.fileId_relabel] at numbers
  rw [Document.root_relabel, Document.root_relabel] at roots
  have mentioned : (mentions [document.fileId] document.root).map (Mention.relabel table.labels) =
      (mentions [twinDocument.fileId] twinDocument.root).map (Mention.relabel other.labels) := by
    rw [← mentions_relabel, ← mentions_relabel, List.map_singleton, List.map_singleton, numbers,
      roots]
  have pairs : List.Forall₂ (fun mention twinMention : Mention =>
      mention.relabel table.labels = twinMention.relabel other.labels)
      (mentions [document.fileId] document.root)
      (mentions [twinDocument.fileId] twinDocument.root) := by
    rw [← List.forall₂_eq_eq_eq] at mentioned
    exact List.forall₂_map_left_iff.mp (List.forall₂_map_right_iff.mp mentioned)
  have start : Collection.Alike ⟨#[], #[]⟩ ⟨#[], #[]⟩ := ⟨rfl, nofun, nofun⟩
  refine (Concur.foldlM pairs (fun _ _ _ _ alike equal =>
    concur_addMention mirrors twinMirrors same rules alike equal) start).bind fun collection twin
      alike => .done ?_
  exact ⟨congrArg Array.toList alike.paths,
    fun diagnostic member => alike.harmless diagnostic (Array.mem_toList_iff.mp member),
    fun diagnostic member => alike.twinHarmless diagnostic (Array.mem_toList_iff.mp member)⟩

end Dependency

end TexSource
