import TexSource.Proofs.Expansion.Moves
import TexSource.Proofs.Expansion.Reading
import TexSource.Proofs.Expansion.Scoping

/-!
# Tickets

A branch gives out a ticket for each directive whose file was included, and to no other token. What
it has written is a row of stretches (`Stretch`): tokens without tickets, and directives between
their braces, with the numbers of the inclusions in their order (`Branch.Writes`). Every directive
that is followed to an included document has its stretch, and every inclusion has its directive
(`Branch.exists_writes_run`).
-/

namespace TexSource

/-- A token without a ticket, other than an end of input. -/
structure Token.Unclaimed (token : Token) : Prop where
  ticket : token.ticket = none
  inside : token.isEndOfInput = false

namespace Expansion

theorem inherited_unclaimed : Inherited Token.Unclaimed where
  markExpanded holds := ⟨holds.ticket, holds.inside⟩
  opener _ := ⟨rfl, rfl⟩
  closer _ := ⟨rfl, rfl⟩

/-- What a branch writes at once: tokens without tickets, or a directive whose file was included,
with the number of the inclusion. -/
inductive Stretch where
  | plain (tokens : List Token)
  | directive (number : Nat) (head : Token) (rest : List Token)

namespace Stretch

def tokens : Stretch → List Token
  | plain tokens => tokens
  | directive number head rest => Scan.enclosed { head with ticket := some number } rest

def number? : Stretch → Option Nat
  | plain _ => none
  | directive number _ _ => some number

/-- A directive is a control word for inclusion and a group with the name of a file. -/
inductive Proper : Stretch → Prop where
  | plain {tokens : List Token} (unclaimed : ∀ token ∈ tokens, token.Unclaimed) :
      Proper (.plain tokens)
  | directive {number : Nat} {head : Token} {rest : List Token} {word : Text}
      (kind : head.kind = .controlWord word) (includes : Branch.isInclusionWord word = true)
      (names : Token.NamesFile rest) (unclaimed : ∀ token ∈ rest, token.Unclaimed) :
      Proper (.directive number head rest)

end Stretch

/-- Expanding an included document leaves a scope whose macros write no tickets. -/
def Nested.Clears (nested : Nested) : Prop :=
  ∀ reader, nested = some reader → ∀ document around shared expanded later,
    shared.scope.Carries Token.Unclaimed →
    reader document around shared = .ok (expanded, later) → later.scope.Carries Token.Unclaimed

namespace Branch

variable {settings : Settings} {site : Site} {nested : Nested}
  {first branch middle after last : Branch}
  {token : Token} {directive : Scan.Directive} {inclusion : Inclusion}
  {stretches others : List Stretch}

/-- A branch comes to another by writing stretches, with the numbers of its inclusions in their
order. -/
structure Writes (before : Branch) (stretches : List Stretch) (after : Branch) : Prop where
  output : after.output.toList = before.output.toList ++ stretches.flatMap Stretch.tokens
  proper : ∀ stretch ∈ stretches, stretch.Proper
  inclusions : ∃ included : List Inclusion,
    after.inclusions.toList = before.inclusions.toList ++ included ∧
      stretches.filterMap Stretch.number? = List.range' before.inclusions.size included.length

namespace Writes

theorem refl (branch : Branch) : Writes branch [] branch :=
  ⟨by simp, nofun, [], by simp⟩

theorem trans (writes : Writes branch stretches middle) (later : Writes middle others after) :
    Writes branch (stretches ++ others) after where
  output := by simp [later.output, writes.output]
  proper := List.forall_mem_append.mpr ⟨writes.proper, later.proper⟩
  inclusions := by
    obtain ⟨included, same, numbers⟩ := writes.inclusions
    obtain ⟨more, sameLater, numbersLater⟩ := later.inclusions
    have size : middle.inclusions.size = branch.inclusions.size + included.length := by
      simpa using congrArg List.length same
    refine ⟨included ++ more, by simp [sameLater, same], ?_⟩
    rw [List.filterMap_append, numbers, numbersLater, size, List.length_append,
      List.range'_append_1]

theorem withStream (writes : Writes branch stretches after) (stream : Stream) :
    Writes branch stretches { after with stream } :=
  ⟨writes.output, writes.proper, writes.inclusions⟩

/-- Tokens without tickets are written. -/
theorem plain {tokens : List Token} (output : after.output = branch.output ++ tokens)
    (inclusions : after.inclusions = branch.inclusions)
    (unclaimed : ∀ token ∈ tokens, token.Unclaimed) : Writes branch [.plain tokens] after where
  output := by simp [output, Stretch.tokens]
  proper := List.forall_mem_singleton.mpr (.plain unclaimed)
  inclusions := ⟨[], by simp [inclusions], rfl⟩

/-- The inclusions that there were keep their numbers. -/
theorem get?_inclusions (writes : Writes branch stretches after) {number : Nat}
    (found : branch.inclusions[number]? = some inclusion) :
    after.inclusions[number]? = some inclusion := by
  obtain ⟨included, same, -⟩ := writes.inclusions
  rw [← Array.getElem?_toList] at found ⊢
  rw [same, List.getElem?_append_left (List.getElem?_eq_some_iff.mp found).1]
  exact found

end Writes

/-- Nothing that a branch has still to read or that its macros can write has a ticket. -/
structure Clear (branch : Branch) : Prop where
  stream : ∀ token ∈ branch.stream.tokens, token.Unclaimed
  scope : branch.shared.scope.Carries Token.Unclaimed

namespace Clear

/-- What a scan takes and what it leaves are without tickets, and so is what it hands on. -/
theorem attempt (clear : branch.Clear) {Result : Type} {scan : Scan Result}
    {granted : Result → Prop} (hands : Scan.Hands Token.Unclaimed scan granted) :
    granted (branch.attempt scan).1 ∧ (∀ token ∈ (branch.attempt scan).2.1, token.Unclaimed) ∧
      (branch.attempt scan).2.2.Clear := by
  obtain ⟨holds, stream, consumed⟩ := hands.hand ⟨branch.stream, [], #[]⟩ ⟨clear.stream, nofun⟩
  exact ⟨holds, consumed, stream, clear.scope⟩

/-- A definition that a scan finds writes no tickets. -/
theorem defines (clear : branch.Clear) {Result : Type} {scan : Scan Result} {definition : Macro}
    (found : branch.Defines scan definition) :
    definition.Carries Token.Unclaimed ∧ (branch.attempt scan).2.2.Clear := by
  cases found with
  | definition isGlobal found =>
    obtain ⟨granted, -, rest⟩ := clear.attempt (Scan.hands_definition isGlobal)
    exact ⟨granted _ found, rest⟩
  | letBinding found =>
    obtain ⟨granted, -, rest⟩ := clear.attempt
      (Scan.hands_letBinding inherited_unclaimed Macro.follows_carries clear.scope false)
    exact ⟨granted _ found, rest⟩
  | marked isGlobal found =>
    obtain ⟨granted, -, rest⟩ :=
      clear.attempt
        (Scan.hands_marked inherited_unclaimed Macro.follows_carries clear.scope isGlobal)
    exact ⟨granted _ found, rest⟩
  | newCommand found =>
    obtain ⟨granted, -, rest⟩ := clear.attempt Scan.hands_newCommand
    exact ⟨granted _ found, rest⟩

/-- What is put back has been read before. -/
theorem giveUp (clear : branch.Clear) {Result : Type} {scan : Scan Result}
    (restores : Scan.Restores scan) (first : Token) :
    ((branch.attempt scan).2.2.giveUp first (branch.attempt scan).2.1).Clear :=
  ⟨tokens_giveUp_attempt branch restores first ▸ clear.stream, clear.scope⟩

end Clear

theorem clear_load (clears : nested.Clears) {name : Text} {anchor : Span} {shared later : Shared}
    {included : Option Inclusion} (clear : shared.scope.Carries Token.Unclaimed)
    (done : load settings site nested name anchor shared = .ok (included, later)) :
    later.scope.Carries Token.Unclaimed := by
  cases nested with
  | none =>
    cases done
    exact clear
  | some reader =>
    rcases located : locate settings site name shared with
      abort | ⟨problem | ⟨entry, document⟩, middle⟩
    · cases (load_of_failed located).symm.trans done
    · cases (load_of_refused located).symm.trans done
      exact (scope_locate located).symm ▸ clear
    · have same := (load_of_located located).symm.trans done
      cases expansion : reader document (site.ancestors ++ [entry.id]) middle with
      | error abort =>
        rw [expansion] at same
        cases same
      | ok result =>
        rw [expansion] at same
        cases same
        exact clears _ rfl _ _ _ _ _ ((scope_locate located).symm ▸ clear) expansion

/-- A branch follows a directive to a document that it includes. -/
structure Includes (settings : Settings) (site : Site) (nested : Nested) (branch : Branch)
    (token : Token) (directive : Scan.Directive) (inclusion : Inclusion) (after : Branch) :
    Prop where
  follows : branch.follows? token = some directive
  loaded : ∃ shared, load settings site nested directive.name token.span branch.shared =
    .ok (some inclusion, shared)
  done : branch.step settings site nested token = .ok after

/-- The stretch of a directive. -/
theorem proper_directive (clear : branch.Clear) (follows : branch.follows? token = some directive)
    (number : Nat) : (Stretch.directive number token directive.tokens).Proper := by
  obtain ⟨-, -, -, found, word, kind, includes⟩ := follows?_eq_some_iff.mp follows
  obtain ⟨granted, -, -⟩ := clear.attempt (Scan.hands_inclusion inherited_unclaimed)
  have names := Scan.ensures_namesFile.ensure ⟨branch.stream, [], #[]⟩ rfl directive found
  exact .directive kind includes names (granted directive found)

/-- A directive whose file is included is written with the number of the inclusion. -/
theorem Includes.writes (clear : branch.Clear)
    (includes : branch.Includes settings site nested token directive inclusion after) :
    Writes branch [.directive branch.inclusions.size token directive.tokens] after ∧
      after.inclusions = branch.inclusions.push inclusion := by
  obtain ⟨follows, ⟨shared, loaded⟩, done⟩ := includes
  rw [step_of_load follows, loaded] at done
  cases done
  refine ⟨⟨?_, ?_, [inclusion], ?_⟩, ?_⟩
  · have same : (branch.attempt Scan.inclusion).2.2.output = branch.output := rfl
    simp [Stretch.tokens, write, same]
  · exact List.forall_mem_singleton.mpr (proper_directive clear follows _)
  · simp [Stretch.number?]
  · simp

/-- **One step** writes a directive for the document that it includes, or tokens without
tickets. -/
theorem writes_step (clear : branch.Clear) (unclaimed : token.Unclaimed)
    (done : branch.step settings site nested token = .ok after) :
    (∃ directive inclusion, branch.Includes settings site nested token directive inclusion after) ∨
      ∃ tokens, Writes branch [.plain tokens] after ∧ after.inclusions = branch.inclusions := by
  have single : ∀ other ∈ [token], other.Unclaimed := List.forall_mem_singleton.mpr unclaimed
  have silent : ∀ {after : Branch}, after.output = branch.output →
      after.inclusions = branch.inclusions →
      ∃ tokens, Writes branch [.plain tokens] after ∧ after.inclusions = branch.inclusions :=
    fun output inclusions =>
      ⟨[], .plain (by rw [output, Array.appendList_nil]) inclusions nofun, inclusions⟩
  have named := clear.attempt Scan.hands_environmentName
  cases moves_of_step done with
  | writes | opens | closes | givesUp | refuses | misses =>
    exact .inr ⟨[token], .plain rfl rfl single, rfl⟩
  | defines | provides | calls => exact .inr (silent rfl rfl)
  | unmarked isGlobal found =>
    obtain ⟨-, consumed, -⟩ :=
      clear.attempt
        (Scan.hands_marked inherited_unclaimed Macro.follows_carries clear.scope isGlobal)
    exact .inr ⟨_, .plain rfl rfl (List.forall_mem_cons.mpr ⟨unclaimed, consumed⟩), rfl⟩
  | enters | passes =>
    exact .inr ⟨_, .plain rfl rfl (List.forall_mem_cons.mpr ⟨unclaimed, named.2.1⟩), rfl⟩
  | @follows directive included shared follows loaded =>
    cases included with
    | some inclusion => exact .inl ⟨directive, inclusion, follows, ⟨shared, loaded⟩, done⟩
    | none =>
      obtain ⟨-, -, -, found, -⟩ := follows?_eq_some_iff.mp follows
      obtain ⟨granted, -, -⟩ := clear.attempt (Scan.hands_inclusion inherited_unclaimed)
      have untold : Token.Unclaimed { token with ticket := none } := ⟨rfl, unclaimed.inside⟩
      have enclosed := Scan.forall_mem_enclosed inherited_unclaimed untold (granted directive found)
      exact .inr ⟨_, .plain rfl (by simp) enclosed, by simp⟩

/-- **One step** makes no tickets that are read again. -/
theorem clear_step (clears : nested.Clears) (clear : branch.Clear)
    (done : branch.step settings site nested token = .ok after) :
    after.Clear := by
  have named := clear.attempt Scan.hands_environmentName
  cases moves_of_step done with
  | writes | refuses => exact ⟨clear.stream, clear.scope⟩
  | opens => exact ⟨clear.stream, clear.scope.push⟩
  | closes =>
    refine ⟨clear.stream, ?_⟩
    dsimp only [write, withScope]
    split
    · exact clear.scope.pop
    · exact clear.scope
  | defines found =>
    obtain ⟨known, clear⟩ := clear.defines found
    exact ⟨clear.stream, clear.scope.define known⟩
  | provides found => exact (clear.defines found).2
  | unmarked isGlobal _ =>
    obtain ⟨-, -, clear⟩ :=
      clear.attempt
        (Scan.hands_marked inherited_unclaimed Macro.follows_carries clear.scope isGlobal)
    exact ⟨clear.stream, clear.scope⟩
  | givesUp scan composed => exact clear.giveUp (composed Scan.composes_restores) token
  | misses =>
    have counted : Clear { branch with steps := branch.steps + 1 } := ⟨clear.stream, clear.scope⟩
    obtain ⟨stream, scope⟩ := counted.giveUp (Scan.composes_restores.invocation ..) token
    exact ⟨stream, scope⟩
  | @calls definition arguments _ _ meaning found =>
    have known : definition.Yields Token.Unclaimed :=
      (clear.scope.lookup (meaning?_eq_some_iff.mp meaning).2).yields inherited_unclaimed
    have counted : Clear { branch with steps := branch.steps + 1 } := ⟨clear.stream, clear.scope⟩
    obtain ⟨granted, -, clear⟩ := counted.attempt (Scan.hands_invocation known token)
    refine ⟨fun other member => ?_, clear.scope⟩
    rw [Stream.tokens_pushCall] at member
    rcases List.mem_append.mp member with written | later
    · exact Macro.forall_mem_substitute (granted arguments found) known.replacement other written
    · exact clear.stream other later
  | enters | passes => exact ⟨named.2.2.stream, named.2.2.scope⟩
  | follows _ loaded =>
    obtain ⟨-, -, rest⟩ := clear.attempt (Scan.hands_inclusion inherited_unclaimed)
    exact ⟨rest.stream, clear_load clears clear.scope loaded⟩

theorem Clear.next (clear : branch.Clear) {stream : Stream}
    (found : branch.stream.next = (some token, stream)) :
    token.Unclaimed ∧ Clear { branch with stream } := by
  have stands := Stream.tokens_next branch.stream
  rw [found] at stands
  have all := clear.stream
  rw [stands] at all
  exact ⟨all token List.mem_cons_self, fun other member =>
    all other (List.mem_cons_of_mem _ member),
    clear.scope⟩

/-- **A whole run** writes one stretch after the other. -/
theorem Runs.writes {called stopped : Nat} (clears : nested.Clears) (clear : first.Clear)
    (runs : Runs settings site nested first last called stopped) :
    last.Clear ∧ ∃ stretches, Writes first stretches last := by
  induction runs with
  | start => exact ⟨clear, [], .refl first⟩
  | @read _ _ stream _ _ _ before found done ih =>
    obtain ⟨clear, stretches, writes⟩ := ih
    obtain ⟨unclaimed, advanced⟩ := clear.next found
    have writes := writes.withStream stream
    refine ⟨clear_step clears advanced done, ?_⟩
    rcases writes_step advanced unclaimed done with ⟨directive, inclusion, includes⟩ | ⟨_, plain, -⟩
    · exact ⟨_, writes.trans (includes.writes advanced).1⟩
    · exact ⟨_, writes.trans plain⟩

/-- A run that comes to an end has read all tokens. -/
theorem exists_runs_of_run (ran : first.run settings site nested = .ok last) :
    ∃ before called stopped stream, Runs settings site nested first before called stopped ∧
      before.stream.next = (none, stream) ∧ last = { before with stream } := by
  obtain ⟨before, called, stopped, runs, ends⟩ := exists_ends settings site nested first
  rw [ran] at ends
  cases ends with
  | finished finished => exact ⟨before, called, stopped, _, runs, finished, rfl⟩

theorem writes_run (clears : nested.Clears) (clear : first.Clear)
    (ran : first.run settings site nested = .ok last) :
    last.Clear ∧ ∃ stretches, Writes first stretches last := by
  obtain ⟨before, _, _, stream, runs, finished, rfl⟩ := exists_runs_of_run ran
  obtain ⟨clear, stretches, writes⟩ := runs.writes clears clear
  have read : stream.tokens = [] := by
    have stands := Stream.tokens_next before.stream
    rw [finished, Stream.tokens_eq_nil (by rw [finished])] at stands
    simpa using stands.symm
  exact ⟨⟨by simp [read], clear.scope⟩, stretches, writes.withStream stream⟩

/-- In a run a directive is followed to the document with a number. -/
inductive Follows (settings : Settings) (site : Site) (nested : Nested) (first : Branch) :
    (number : Nat) → Token → Scan.Directive → Inclusion → Prop where
  | intro {branch after : Branch} {stream : Stream} {token : Token} {directive : Scan.Directive}
      {inclusion : Inclusion} {called stopped : Nat}
      (runs : Runs settings site nested first branch called stopped)
      (found : branch.stream.next = (some token, stream))
      (includes : Includes settings site nested { branch with stream } token directive inclusion
        after) :
      Follows settings site nested first branch.inclusions.size token directive inclusion

/-- **Every directive that is followed** has its stretch and its inclusion in the end. -/
theorem Follows.writes {number : Nat} (clears : nested.Clears) (clear : first.Clear)
    (follows : Follows settings site nested first number token directive inclusion)
    (ran : first.run settings site nested = .ok last) :
    last.inclusions[number]? = some inclusion ∧ ∃ before behind,
      Writes first (before ++ .directive number token directive.tokens :: behind) last := by
  cases follows with
  | intro runs found includes =>
    obtain ⟨ready, before, writes⟩ := runs.writes clears clear
    obtain ⟨unclaimed, advanced⟩ := ready.next found
    obtain ⟨written, pushed⟩ := includes.writes advanced
    have later := clear_step clears advanced includes.done
    rw [runs.run_eq, run_of_found found includes.done] at ran
    obtain ⟨-, behind, rest⟩ := writes_run clears later ran
    refine ⟨rest.get?_inclusions ?_, before, behind, ?_⟩
    · rw [pushed]
      exact Array.getElem?_push_size
    · simpa using ((writes.withStream _).trans written).trans rest

/-- **Every inclusion** belongs to a directive that is followed. -/
theorem Runs.exists_follows {called stopped number : Nat} (clears : nested.Clears)
    (clear : first.Clear) (runs : Runs settings site nested first last called stopped)
    (new : first.inclusions.size ≤ number)
    (present : last.inclusions[number]? = some inclusion) :
    ∃ token directive, Follows settings site nested first number token directive inclusion := by
  induction runs with
  | start => exact absurd (Array.getElem?_eq_some_iff.mp present).1 (by omega)
  | @read branch after stream token _ _ before found done ih =>
    obtain ⟨ready, -⟩ := before.writes clears clear
    obtain ⟨unclaimed, advanced⟩ := ready.next found
    rcases writes_step advanced unclaimed done with ⟨directive, other, includes⟩ | ⟨_, -, same⟩
    · have pushed := (includes.writes advanced).2
      rw [pushed, Array.getElem?_push] at present
      split at present
      · rename_i newest
        cases present
        have follows : Follows settings site nested first branch.inclusions.size token directive
            inclusion := .intro before found includes
        exact ⟨token, directive, newest ▸ follows⟩
      · exact ih present
    · exact ih (same ▸ present)

end Branch

section

variable {settings : Settings} {nested : Nested} {main document : Document} {shared start : Shared}
  {depth : Nat} {ancestors : List FileId}

theorem Branch.clear_start (document : Document)
    (clear : start.scope.Carries Token.Unclaimed) : (Branch.start document start).Clear := by
  refine ⟨fun token member => ?_, clear⟩
  rw [Branch.start, Stream.tokens_ofTokens] at member
  obtain ⟨original, kept, rfl⟩ := List.mem_map.mp member
  have inside : original.isEndOfInput = false := by simpa using (List.mem_filter.mp kept).2
  exact ⟨rfl, inside⟩

theorem clears_expandIncluded (settings : Settings) (room : Nat) :
    (expandIncluded settings room).Clears := by
  induction room with
  | zero => exact nofun
  | succ room clears =>
    rintro reader ⟨⟩ document around shared expanded later clear done
    obtain ⟨branch, ran, -, rfl⟩ := exists_run_of_expandWith done
    exact (Branch.writes_run clears (Branch.clear_start document clear) ran).1.scope.popTo _

/-- No branch of an expansion starts with macros that write tickets. -/
theorem Nests.clear (nests : Nests settings main shared depth document ancestors start)
    (clear : shared.scope.Carries Token.Unclaimed) : start.scope.Carries Token.Unclaimed := by
  induction nests with
  | main => exact clear
  | @opened depth document included ancestors inner start state branch stream token _ _ _ runs found
      _ opens ih =>
    obtain ⟨ready, -⟩ := runs.writes (clears_expandIncluded settings _)
      (Branch.clear_start document ih)
    obtain ⟨directive, entry, -, located, rfl⟩ := Branch.located_of_opens opens
    rw [Branch.scope_locate located]
    exact ready.scope

end

end Expansion

end TexSource
