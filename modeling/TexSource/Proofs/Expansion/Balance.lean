import TexSource.Proofs.Expansion.Represented
import TexSource.Proofs.Expansion.Taking
import TexSource.Proofs.Expansion.Verbatim

/-!
# Braces in an expansion

A branch opens a layer of the scope for each brace that it writes outside of verbatim environments,
and what is left to be read closes them (`Branch.Leveled`). This lasts as long as braces come and go
in pairs: definitions take each brace with its counterpart (`Branch.TakesPairs`), so that macros
write them in pairs (`Branch.Runs.paired`), and the verbatim environments that are passed through
have their braces in pairs (`Branch.PassesPairs`). Then the braces match in the end, and no layer is
left over (`balanced_expand`).
-/

namespace TexSource

namespace Expansion

theorem Shared.Keeps.silent {earlier later : Shared} (keeps : earlier.Keeps later)
    (silent : later.diagnostics = #[]) : earlier.diagnostics = #[] := by
  unfold Shared.Keeps at keeps
  rw [silent] at keeps
  exact Array.toList_eq_nil_iff.mp (List.prefix_nil.mp keeps)

namespace Branch

variable {settings : Settings} {site : Site} {nested : Nested} {first before branch after : Branch}
  {token : Token} {called stopped : Nat}

/-- In a run definitions take each brace with its counterpart. -/
def TakesPairs (settings : Settings) (site : Site) (nested : Nested) (first : Branch) : Prop :=
  ∀ branch called stopped token stream taken,
    Runs settings site nested first branch called stopped →
    branch.stream.next = (some token, stream) →
    takes? { branch with stream } token = some taken → Token.Balanced taken

theorem reports_of_silent {Result : Type} {scan : Scan Result}
    (silent : (branch.attempt scan).2.2.shared.diagnostics = #[]) :
    (scan ⟨branch.stream, [], #[]⟩).2.reports = #[] :=
  (Array.append_eq_empty_iff.mp silent).2

theorem Defines.restores {Result : Type} {scan : Scan Result} {definition : Macro}
    (found : branch.Defines scan definition) : Scan.Restores scan := by
  cases found with
  | definition isGlobal => exact Scan.composes_restores.definition isGlobal
  | letBinding => exact Scan.composes_restores.letBinding ..
  | marked isGlobal => exact Scan.composes_restores.marked ..
  | newCommand => exact Scan.composes_restores.newCommand

/-- A definition that takes each brace with its counterpart has its braces in pairs. -/
theorem paired_of_defines {Result : Type} {scan : Scan Result} {definition : Macro}
    (paired : branch.shared.scope.Every Macro.Paired) (found : branch.Defines scan definition)
    (balanced : Token.Balanced (branch.attempt scan).2.1)
    (silent : (branch.attempt scan).2.2.shared.diagnostics = #[]) : definition.Paired := by
  have known : ∀ name definition, branch.shared.scope.lookup name = some definition →
      definition.Paired := fun _ _ => paired.lookup
  have quiet := reports_of_silent silent
  have start : Token.Cancels [] := Token.cancels_plain (List.forall_mem_nil _)
  cases found with
  | definition isGlobal found =>
    exact (Scan.ensures_definition isGlobal start).ensure ⟨branch.stream, [], #[]⟩ rfl quiet
      balanced definition found
  | letBinding found =>
    exact (Scan.ensures_letBinding known false start).ensure ⟨branch.stream, [], #[]⟩ rfl
      balanced definition found
  | marked isGlobal found =>
    exact ((Scan.ensures_marked known isGlobal).ensure ⟨branch.stream, [], #[]⟩ rfl).defines quiet
      balanced found
  | newCommand found =>
    exact Scan.ensures_newCommand.ensure ⟨branch.stream, [], #[]⟩ rfl definition found balanced

/-- **One step** defines no macro without its braces in pairs, if no document does that it opens. -/
theorem paired_step (paired : branch.shared.scope.Every Macro.Paired)
    (takes : ∀ taken, branch.takes? token = some taken → Token.Balanced taken)
    (inside : (nested = none ∨ branch.opens settings site token = none) ∨
      after.shared.scope.Every Macro.Paired)
    (silent : after.shared.diagnostics = #[])
    (done : branch.step settings site nested token = .ok after) :
    after.shared.scope.Every Macro.Paired := by
  cases moves_of_step done with
  | opens => exact paired.push
  | closes =>
    dsimp only [write, withScope]
    split
    · exact paired.pop
    · exact paired
  | defines found taken =>
    exact paired.define (paired_of_defines paired found (takes _ taken) silent)
  | follows follows =>
    rcases inside with unopened | later
    · rw [scope_of_follows follows unopened done]
      exact paired
    · exact later
  | _ => exact paired

theorem Runs.paired (below : nested.Keeps) (takes : TakesPairs settings site nested first)
    (inside : ∀ branch called stopped token stream after,
      Runs settings site nested first branch called stopped →
      branch.stream.next = (some token, stream) →
      step settings site nested { branch with stream } token = .ok after →
      branch.shared.scope.Every Macro.Paired → after.shared.diagnostics = #[] →
      (nested = none ∨ opens settings site { branch with stream } token = none) ∨
        after.shared.scope.Every Macro.Paired)
    (paired : first.shared.scope.Every Macro.Paired)
    (runs : Runs settings site nested first branch called stopped)
    (silent : branch.shared.diagnostics = #[]) : branch.shared.scope.Every Macro.Paired := by
  induction runs with
  | start => exact paired
  | @read branch after stream token _ _ runs found done ih =>
    have earlier : branch.shared.diagnostics = #[] := (keeps_step below done).silent silent
    have before : ({ branch with stream } : Branch).shared.scope.Every Macro.Paired := ih earlier
    exact paired_step before (fun taken => takes branch _ _ token stream taken runs found)
      (inside branch _ _ token stream after runs found done before silent) silent done

end Branch

/-- In all branches of an expansion definitions take each brace with its counterpart. -/
def TakesPairs (settings : Settings) (main : Document) (shared : Shared) : Prop :=
  ∀ depth document ancestors start, Nests settings main shared depth document ancestors start →
    Branch.TakesPairs settings (siteOf document ancestors start) (nestedAt settings depth)
      (.start document start)

/-- **No macro is ever defined without its braces in pairs**, in any branch of an expansion. -/
theorem Nests.paired {settings : Settings} {main document : Document} {shared start : Shared}
    {depth : Nat} {ancestors : List FileId} (takes : TakesPairs settings main shared)
    (nests : Nests settings main shared depth document ancestors start)
    (paired : start.scope.Every Macro.Paired) {branch : Branch} {called stopped : Nat}
    (runs : Branch.Runs settings (siteOf document ancestors start) (nestedAt settings depth)
      (.start document start) branch called stopped)
    (silent : branch.shared.diagnostics = #[]) : branch.shared.scope.Every Macro.Paired := by
  -- Included documents are expanded with less room for others.
  generalize room : settings.limits.maxIncludeDepth.toNat - depth = left
  induction left using Nat.strong_induction_on generalizing depth document ancestors start branch
    called stopped with
  | _ left ih =>
    have keeps : (nestedAt settings depth).Keeps := keeps_expandIncluded settings _
    refine runs.paired keeps (takes _ _ _ _ nests) ?_ paired silent
    intro branch called stopped token stream after runs found done paired silent
    cases nested : nestedAt settings depth with
    | none => exact .inl (.inl rfl)
    | some reader =>
      cases opened : Branch.opens settings (siteOf document ancestors start) { branch with stream }
          token with
      | none => exact .inl (.inr rfl)
      | some opening =>
        obtain ⟨included, inner, state⟩ := opening
        have allowed : (nestedAt settings depth).isSome = true := by rw [nested, Option.isSome_some]
        obtain ⟨below, same⟩ := nestedAt_of_isSome allowed
        rw [same] at done
        obtain ⟨scope, expanded, expansion⟩ := Branch.shared_of_opens opened done
        obtain ⟨last, ran, -, later⟩ := exists_run_of_expandWith expansion
        obtain ⟨final, _, _, _, finalRuns, -, rfl⟩ := Branch.exists_runs_of_run ran
        have ended : final.shared.diagnostics = #[] := by rw [← silent, later]
        have opened := nests.opened runs found allowed opened
        have every : final.shared.scope.Every Macro.Paired :=
          ih _ (by omega) opened (scope ▸ paired) finalRuns ended rfl
        rw [later]
        exact .inr (every.popTo _)

namespace Branch

variable {settings : Settings} {site : Site} {nested : Nested} {first before branch after : Branch}
  {token : Token} {tokens : List Token} {called stopped : Nat}

/-- Tokens are written as they stood ahead, and nothing else is changed. -/
structure PassesOn (before : Branch) (tokens : List Token) (after : Branch) : Prop where
  ahead : before.stream.tokens = tokens ++ after.stream.tokens
  same : after = { before with
    stream := after.stream, verbatim := after.verbatim, output := before.output ++ tokens }

theorem PassesOn.trans {others : List Token} (passes : PassesOn before tokens branch)
    (later : PassesOn branch others after) : PassesOn before (tokens ++ others) after where
  ahead := by rw [passes.ahead, later.ahead, List.append_assoc]
  same := by
    rw [later.same, passes.same, ← appendList_assoc]

/-- A control word is passed on with the name of an environment that is looked for behind it. -/
theorem passesOn_label {stream : Stream} (found : branch.stream.next = (some token, stream))
    (verbatim : Option Text) :
    ∃ tokens, PassesOn branch tokens
      { (attempt { branch with stream } Scan.environmentName).2.2.write
        (token :: (attempt { branch with stream } Scan.environmentName).2.1) with verbatim } := by
  obtain ⟨front, rest, split, consumes⟩ := Scan.exists_environmentName stream.tokens
  obtain ⟨behind, ahead, read⟩ := attempt_of_consumes consumes { branch with stream } split
  have next := Stream.tokens_next branch.stream
  rw [found] at next
  refine ⟨token :: front, ?_, ?_⟩
  · rw [read, next, split]
    change _ = _ ++ behind.tokens
    rw [ahead]
    rfl
  · rw [read]
    rfl

/-- In a verbatim environment tokens are passed on. -/
theorem passesOn_reads {name : Text} (running : branch.aborted = false)
    (inside : branch.verbatim = some name) (reads : Reads settings site nested branch after) :
    (∃ tokens, PassesOn branch tokens after) ∧
      (after.verbatim = some name ∨ after.verbatim = none) := by
  obtain ⟨token, stream, found, done⟩ := reads
  have next := Stream.tokens_next branch.stream
  rw [found] at next
  rw [step, if_neg (by simp [running]), inside] at done
  dsimp only at done
  cases done
  unfold passVerbatim
  split
  · refine ⟨passesOn_label found _, ?_⟩
    dsimp only
    split
    · exact .inr rfl
    · exact .inl rfl
  · exact ⟨⟨[token], next, rfl⟩, .inl rfl⟩

/-- The layers of the scope that a branch has opened are those of the braces that it has left open
in what is written, and tokens ahead close them. -/
structure Leveled (base : Nat) (branch : Branch) (ahead : List Token) (depth : Nat) : Prop where
  expands : branch.Expands
  layers : branch.shared.scope.depth = base + depth
  written : Token.depthBehind 0 branch.output.toList = some depth
  closed : Token.depthBehind depth ahead = some 0

namespace Leveled

variable {base depth : Nat} {front rest others : List Token}

/-- Tokens with as many closing braces as opening ones leave the depth as it is. -/
theorem level (leveled : Leveled base branch (front ++ rest) depth)
    (cancels : Token.Cancels front) : Token.depthBehind depth front = some depth :=
  cancels.levels.append rest 0 leveled.closed

/-- Tokens are taken and others are written, and none of them changes the depth. -/
theorem goesOn (leveled : Leveled base branch (front ++ rest) depth) (cancels : Token.Cancels front)
    (expands : after.Expands) (layers : after.shared.scope.depth = branch.shared.scope.depth)
    (output : after.output = branch.output ++ others)
    (kept : Token.depthBehind depth others = some depth) : Leveled base after rest depth where
  expands := expands
  layers := layers.trans leveled.layers
  written := by
    rw [output, Array.toList_appendList, Token.depthBehind_append, leveled.written,
      Option.bind_some, kept]
  closed := by
    have closed := leveled.closed
    rwa [Token.depthBehind_append, leveled.level cancels, Option.bind_some] at closed

theorem writesPlain (leveled : Leveled base branch (token :: rest) depth)
    (plain : token.isBrace = false) (expands : after.Expands)
    (layers : after.shared.scope.depth = branch.shared.scope.depth)
    (output : after.output = branch.output ++ [token]) : Leveled base after rest depth := by
  have single := Token.balanced_singleton_iff.mpr plain
  have ahead : Leveled base branch ([token] ++ rest) depth := leveled
  exact ahead.goesOn single.cancels expands layers output single.depthBehind

theorem takes (leveled : Leveled base branch (front ++ rest) depth)
    (cancels : Token.Cancels front) (expands : after.Expands)
    (layers : after.shared.scope.depth = branch.shared.scope.depth)
    (output : after.output = branch.output) : Leveled base after rest depth := by
  refine leveled.goesOn cancels expands layers ?_ Token.depthBehind_nil
  rw [output, Array.appendList_nil]

/-- A brace is written, and the scope has a layer more or less. -/
theorem writesBrace {behind : Nat} (leveled : Leveled base branch (token :: rest) depth)
    (expands : after.Expands) (layers : after.shared.scope.depth = base + behind)
    (output : after.output = branch.output ++ [token])
    (goes : ∀ later, Token.depthBehind depth (token :: later) = Token.depthBehind behind later) :
    Leveled base after rest behind where
  expands := expands
  layers := layers
  written := by
    rw [output, Array.toList_appendList, Token.depthBehind_append, leveled.written,
      Option.bind_some, goes, Token.depthBehind_nil]
  closed := (goes rest).symm.trans leveled.closed

/-- Tokens that change no depth are put in front of those ahead. -/
theorem prepend (leveled : Leveled base branch rest depth)
    (kept : Token.depthBehind depth front = some depth) :
    Leveled base branch (front ++ rest) depth where
  expands := leveled.expands
  layers := leveled.layers
  written := leveled.written
  closed := by rw [Token.depthBehind_append, kept, Option.bind_some, leveled.closed]

end Leveled

theorem depth_define (scope : Scope) (definition : Macro) :
    (scope.define definition).depth = scope.depth := by
  unfold Scope.define
  split
  · exact Layered.depth_assignGlobally
  · exact Layered.depth_assignLocally

/-- A directive leaves the depth of the scope as it is, whatever it comes to. -/
theorem depth_of_follows {inside : NestedHistory} (records : Records nested inside)
    {directive : Scan.Directive} (follows : branch.follows? token = some directive)
    (done : branch.step settings site nested token = .ok after) :
    after.shared.scope.depth = branch.shared.scope.depth := by
  cases records with
  | none => rw [scope_of_follows follows (.inl rfl) done]
  | some faithful =>
    cases opened : branch.opens settings site token with
    | none => rw [scope_of_follows follows (.inr opened) done]
    | some opening =>
      obtain ⟨included, ancestors, state⟩ := opening
      obtain ⟨same, expanded, expansion⟩ := shared_of_opens opened done
      rw [(faithful _ _ _ _ _ expansion).1, same]

/-- What a scan takes stands behind a token that is read, in front of what it leaves. -/
theorem Leveled.ahead {base depth : Nat}
    (leveled : Leveled base branch (token :: branch.stream.tokens) depth) {Result : Type}
    {scan : Scan Result} (restores : Scan.Restores scan) :
    Leveled base branch (token :: (branch.attempt scan).2.1 ++
      (branch.attempt scan).2.2.stream.tokens) depth := by
  rw [List.cons_append, ← tokens_attempt branch restores]
  exact leveled

/-- The replacement of a macro with its braces in pairs is read at the depth of its use. -/
theorem Leveled.call {base depth : Nat} {definition : Macro} {arguments : List (List Token)}
    (leveled : Leveled base branch (token :: branch.stream.tokens) depth)
    (paired : definition.Paired) (plain : token.isBrace = false)
    (silent : (branch.attempt (Scan.invocation definition token)).2.2.shared.diagnostics = #[])
    (found : (branch.attempt (Scan.invocation definition token)).1 = .ok arguments)
    (expands : after.Expands) (layers : after.shared.scope.depth = branch.shared.scope.depth)
    (output : after.output = branch.output) :
    Leveled base after (Macro.substitute arguments definition.replacement ++
      (branch.attempt (Scan.invocation definition token)).2.2.stream.tokens) depth := by
  have leveled := leveled.ahead (Scan.composes_restores.invocation definition token)
  obtain ⟨taken, level⟩ := (Scan.ensures_invocation paired token).ensure
    ⟨branch.stream, [], #[]⟩ rfl (reports_of_silent silent) arguments found
  have cancels := taken.cons plain
  have whole := leveled.level cancels
  rw [Token.depthBehind_other plain] at whole
  have replaced := paired.substitute fun argument member => level argument member depth _ whole
  exact (leveled.takes cancels expands layers output).prepend replaced

theorem isBrace_of_takes? {taken : List Token} (takes : branch.takes? token = some taken) :
    token.isBrace = false := by
  unfold takes? at takes
  split at takes
  · cases takes
  · split at takes
    · exact isBrace_of_kind ‹_›
    · cases takes

/-- **One step** opens a layer with each brace that it writes and closes one with each that it
writes, unless it enters a verbatim environment. -/
theorem leveled_step {inside : NestedHistory} {depth : Nat} (records : Records nested inside)
    (leveled : Leveled site.baseDepth branch (token :: branch.stream.tokens) depth)
    (paired : branch.shared.scope.Every Macro.Paired)
    (takes : ∀ taken, branch.takes? token = some taken → Token.Balanced taken)
    (silent : after.shared.diagnostics = #[])
    (done : branch.step settings site nested token = .ok after) :
    (∃ depth, Leveled site.baseDepth after after.stream.tokens depth) ∨
      ∃ name, after = { (branch.attempt Scan.environmentName).2.2.write
        (token :: (branch.attempt Scan.environmentName).2.1) with verbatim := some name } := by
  obtain ⟨running, code⟩ := leveled.expands
  have cancels : ∀ {taken : List Token}, branch.takes? token = some taken →
      Token.Cancels (token :: taken) :=
    fun found => (takes _ found).cancels.cons (isBrace_of_takes? found)
  cases moves_of_step done with
  | writes plain =>
    have plain : token.isBrace = false := by simpa [running, code, Token.isBrace] using plain
    exact .inl ⟨depth, leveled.writesPlain plain ⟨running, code⟩ rfl rfl⟩
  | opens _ _ brace =>
    exact .inl ⟨depth + 1, leveled.writesBrace ⟨running, code⟩ (congrArg Nat.succ leveled.layers)
      rfl fun _ => Token.depthBehind_beginGroup brace⟩
  | closes _ _ brace =>
    cases depth with
    | zero =>
      have closed := leveled.closed
      rw [Token.depthBehind_stray brace] at closed
      cases closed
    | succ depth =>
      have layers := leveled.layers
      refine .inl ⟨depth, leveled.writesBrace ⟨running, code⟩ ?_ rfl
        fun _ => Token.depthBehind_endGroup brace⟩
      change Layered.depth (if _ then _ else _) = _
      rw [if_pos (by omega)]
      simp only [Layered.depth, Layered.pop, List.length_tail] at layers ⊢
      omega
  | defines found taken =>
    exact .inl ⟨depth, (leveled.ahead found.restores).takes (cancels taken) ⟨running, code⟩
      (depth_define _ _) rfl⟩
  | provides found taken =>
    exact .inl ⟨depth, (leveled.ahead found.restores).takes (cancels taken) ⟨running, code⟩ rfl
      rfl⟩
  | unmarked isGlobal found plain =>
    have leveled := leveled.ahead (Scan.composes_restores.marked branch.shared.scope isGlobal)
    have marks := (Scan.ensures_marked (fun _ _ => paired.lookup) isGlobal).ensure
      ⟨branch.stream, [], #[]⟩ rfl
    have cancels := (marks.notOurs found).cons plain
    exact .inl ⟨depth, leveled.goesOn cancels ⟨running, code⟩ rfl rfl (leveled.level cancels)⟩
  | givesUp scan composed plain =>
    rw [tokens_giveUp_attempt branch (composed Scan.composes_restores)]
    exact .inl ⟨depth, leveled.writesPlain plain ⟨running, code⟩ rfl rfl⟩
  | refuses problem aborted => exact absurd silent Array.push_ne_empty
  | misses problem failed => exact absurd silent Array.push_ne_empty
  | calls _ _ meaning found =>
    obtain ⟨definable, bound⟩ := meaning?_eq_some_iff.mp meaning
    rw [Stream.tokens_pushCall]
    exact .inl ⟨depth, leveled.call (paired.lookup bound) (Token.isBrace_of_isDefinable definable)
      silent found ⟨running, code⟩ rfl rfl⟩
  | enters name => exact .inr ⟨name, rfl⟩
  | passes verbatim inside => simp [code] at inside
  | @follows directive inclusion shared follows loaded =>
    obtain ⟨-, -, -, found, word, kind, -⟩ := follows?_eq_some_iff.mp follows
    have plain := isBrace_of_kind kind
    have taken := Scan.ensures_cancels_inclusion.ensure ⟨branch.stream, [], #[]⟩ rfl
      (Option.isSome_of_eq_some found)
    have names := Scan.ensures_namesFile.ensure ⟨branch.stream, [], #[]⟩ rfl directive found
    have written : Token.Balanced (Scan.enclosed { token with
        ticket := inclusion.map fun _ => branch.inclusions.size } directive.tokens) :=
      Scan.balanced_enclosed plain names
    exact .inl ⟨depth, (leveled.ahead Scan.composes_restores.inclusion).goesOn (taken.cons plain)
      ⟨running, code⟩ (depth_of_follows records follows done) rfl written.depthBehind⟩

/-- The verbatim environments that a run passes through have their braces in pairs. -/
def PassesPairs (settings : Settings) (site : Site) (nested : Nested) (first : Branch) : Prop :=
  ∀ before called stopped tokens rest after,
    Runs settings site nested first before called stopped → before.Expands →
    PassesThrough settings site nested before tokens rest after → Token.Balanced tokens

/-- A branch has a layer for each brace that it has left open, or it is in a verbatim environment
and had them in front of it. -/
inductive Tracks (settings : Settings) (site : Site) (nested : Nested) (first branch : Branch) :
    Prop where
  | outside {depth : Nat} (leveled : Leveled site.baseDepth branch branch.stream.tokens depth)
  | within {before opened : Branch} {name : Text} {tokens : List Token}
      {depth called stopped : Nat} (reached : Runs settings site nested first before called stopped)
      (leveled : Leveled site.baseDepth before before.stream.tokens depth)
      (opens : Reads settings site nested before opened) (head : opened.verbatim = some name)
      (reads : Relation.ReflTransGen (ReadsWithin settings site nested name) opened branch)
      (passes : PassesOn before tokens branch) (inside : branch.verbatim = some name)

theorem Leveled.next {base depth : Nat} (leveled : Leveled base branch branch.stream.tokens depth)
    {stream : Stream} (found : branch.stream.next = (some token, stream)) :
    Leveled base { branch with stream } (token :: stream.tokens) depth := by
  have next := Stream.tokens_next branch.stream
  rw [found] at next
  obtain ⟨expands, layers, written, closed⟩ := leveled
  rw [next] at closed
  exact ⟨⟨expands.running, expands.code⟩, layers, written, closed⟩

/-- Behind a verbatim environment with its braces in pairs all is as it was in front of it. -/
theorem Leveled.passed {base depth : Nat} (leveled : Leveled base before before.stream.tokens depth)
    (passes : PassesOn before tokens after) (balanced : Token.Balanced tokens)
    (outside : after.verbatim = none) : Leveled base after after.stream.tokens depth := by
  rw [passes.ahead] at leveled
  refine leveled.goesOn balanced.cancels ⟨?_, outside⟩ ?_ ?_ balanced.depthBehind
  · rw [passes.same]
    exact leveled.expands.running
  · rw [passes.same]
  · rw [passes.same]

theorem tracks_step {inside : NestedHistory} (records : Records nested inside)
    (passesPairs : PassesPairs settings site nested first)
    (paired : branch.shared.scope.Every Macro.Paired) {stream : Stream}
    (takes : ∀ taken, takes? { branch with stream } token = some taken → Token.Balanced taken)
    (silent : after.shared.diagnostics = #[])
    (runs : Runs settings site nested first branch called stopped)
    (tracks : Tracks settings site nested first branch)
    (found : branch.stream.next = (some token, stream))
    (done : step settings site nested { branch with stream } token = .ok after) :
    Tracks settings site nested first after := by
  have read : Reads settings site nested branch after := ⟨token, stream, found, done⟩
  cases tracks with
  | outside leveled =>
    rcases leveled_step records (leveled.next found) paired takes silent done with
      ⟨depth, leveled⟩ | ⟨name, rfl⟩
    · exact .outside leveled
    · obtain ⟨tokens, passes⟩ := passesOn_label found (some name)
      exact .within runs leveled read rfl .refl passes rfl
  | @within before opened name tokens depth _ _ reached leveled opens head reads passes inside =>
    have running : branch.aborted = false := by
      rw [passes.same]
      exact leveled.expands.running
    obtain ⟨⟨label, more⟩, still⟩ := passesOn_reads running inside read
    have passes := passes.trans more
    have reads := reads.tail ⟨inside, read⟩
    rcases still with still | left
    · exact .within reached leveled opens head reads passes still
    · have through : PassesThrough settings site nested before (tokens ++ label)
          after.stream.tokens after :=
        ⟨rfl, passes.same, ⟨name, opened, opens, head, reads⟩, .inl left⟩
      exact .outside (leveled.passed passes
        (passesPairs _ _ _ _ _ _ reached leveled.expands through) left)

/-- **At the end of its input** a branch has closed all layers that it has opened, and the braces
match in what it has written. -/
theorem Tracks.finished (passesPairs : PassesPairs settings site nested first)
    (tracks : Tracks settings site nested first branch) (read : branch.stream.tokens = []) :
    Token.Balanced branch.output.toList ∧ branch.shared.scope.depth = site.baseDepth := by
  cases tracks with
  | outside leveled =>
    have closed := leveled.closed
    rw [read] at closed
    cases closed
    exact ⟨leveled.written, leveled.layers⟩
  | @within before opened name tokens depth _ _ reached leveled opens head reads passes inside =>
    -- The environment is not ended, so that it reaches to the end.
    have through : PassesThrough settings site nested before tokens branch.stream.tokens branch :=
      ⟨rfl, passes.same, ⟨name, opened, opens, head, reads⟩, .inr read⟩
    have balanced := passesPairs _ _ _ _ _ _ reached leveled.expands through
    have closed := leveled.closed
    rw [passes.ahead, read, List.append_nil, balanced.depthBehind] at closed
    cases closed
    rw [passes.same]
    refine ⟨?_, leveled.layers⟩
    change Token.depthBehind 0 (before.output ++ tokens).toList = some 0
    rw [Array.toList_appendList, Token.depthBehind_append, leveled.written, Option.bind_some]
    exact balanced

theorem isBrace_of_isEndOfInput (ends : token.isEndOfInput = true) : token.isBrace = false := by
  cases kind : token.kind <;>
    simp_all [Token.isEndOfInput, Token.isBrace, Token.isBeginGroup, Token.isEndGroup]

/-- The tokens that a branch starts with have the braces of its document. -/
theorem depthBehind_start (document : Document) (shared : Shared) (depth : Nat) :
    Token.depthBehind depth (start document shared).stream.tokens =
      Token.depthBehind depth document.tokens := by
  rw [start, Stream.tokens_ofTokens]
  induction document.tokens generalizing depth with
  | nil => rfl
  | cons token rest ih =>
    by_cases ends : token.isEndOfInput = true
    · have plain := isBrace_of_isEndOfInput ends
      rw [List.filter_cons_of_neg (by simp [ends]), Token.depthBehind_other plain, ih]
    · rw [List.filter_cons_of_pos (by simp [ends]), List.map_cons]
      unfold Token.depthBehind
      simp only [ih]
      rfl

/-- The braces of an expanded document are those that its branch has written. -/
theorem balanced_result {nested : Nested} {document : Document} {shared : Shared} {last : Branch}
    (clears : nested.Clears) (clear : shared.scope.Carries Token.Unclaimed)
    (ran : (start document shared).run settings site nested = .ok last)
    (balanced : Token.Balanced last.output.toList) (commands : CommandTable) :
    Token.Balanced (last.result commands document).tokens := by
  obtain ⟨-, stretches, writes⟩ := writes_run clears (clear_start document clear) ran
  have listed := (Document.splits_placed (last.output.toList ++
    [{ kind := .endOfInput, raw := [], span := document.endOfInput.span }]) document.source
    document.fileId commands).2.1
  have same : (last.result commands document).tokens = (last.written commands document).tokens :=
    rfl
  have content : Token.Balanced (last.written commands document).root.tokens := by
    rw [Token.Balanced, (writes.splits commands).depthBehind, ← writes.ofStart.1]
    exact balanced
  rw [Token.Balanced, same, written, listed, Token.depthBehind_append]
  rw [written, Node.tokens] at content
  rw [content.depthBehind, Option.bind_some]
  exact Token.balanced_singleton_iff.mpr (isBrace_of_isEndOfInput (Document.isEndOfInput_endOf _ _))

end Branch

section

variable {settings : Settings} {main document expanded : Document} {shared start later : Shared}
  {depth : Nat} {ancestors : List FileId}

/-- **A whole run** keeps a layer open for each brace that it has left open. -/
theorem Nests.tracks (takes : TakesPairs settings main shared)
    (nests : Nests settings main shared depth document ancestors start)
    (paired : start.scope.Every Macro.Paired)
    (passes : Branch.PassesPairs settings (siteOf document ancestors start)
      (nestedAt settings depth) (.start document start))
    (balanced : Token.Balanced document.tokens) {branch : Branch} {called stopped : Nat}
    (runs : Branch.Runs settings (siteOf document ancestors start) (nestedAt settings depth)
      (.start document start) branch called stopped)
    (silent : branch.shared.diagnostics = #[]) :
    Branch.Tracks settings (siteOf document ancestors start) (nestedAt settings depth)
      (.start document start) branch := by
  have keeps : (nestedAt settings depth).Keeps := keeps_expandIncluded settings _
  have records : Branch.Records (nestedAt settings depth) (historyAt settings depth) :=
    records_expandIncluded settings _
  induction runs with
  | start =>
    have leveled : Branch.Leveled start.scope.depth (.start document start)
        (Branch.start document start).stream.tokens 0 :=
      ⟨⟨rfl, rfl⟩, rfl, rfl, (Branch.depthBehind_start document start 0).trans balanced⟩
    exact .outside leveled
  | @read branch after stream token _ _ before found done ih =>
    have earlier : branch.shared.diagnostics = #[] :=
      (Branch.keeps_step keeps done).silent silent
    exact Branch.tracks_step records passes (nests.paired takes paired before earlier)
      (fun taken => takes _ _ _ _ nests branch _ _ token stream taken before found) silent before
      (ih earlier) found done

/-- **The braces match in an expanded document**, and its branch has closed the layers that it has
opened. -/
theorem Nests.balanced (clear : shared.scope.Carries Token.Unclaimed)
    (takes : TakesPairs settings main shared)
    (nests : Nests settings main shared depth document ancestors start)
    (paired : start.scope.Every Macro.Paired)
    (passes : Branch.PassesPairs settings (siteOf document ancestors start)
      (nestedAt settings depth) (.start document start))
    (balanced : Token.Balanced document.tokens)
    (done : expandWith settings (nestedAt settings depth) document ancestors start =
      .ok (expanded, later))
    (silent : later.diagnostics = #[]) :
    Token.Balanced expanded.tokens ∧ ∃ last,
      (Branch.start document start).run settings (siteOf document ancestors start)
        (nestedAt settings depth) = .ok last ∧ last.shared.scope.depth = start.scope.depth := by
  obtain ⟨last, ran, rfl, rfl⟩ := exists_run_of_expandWith done
  obtain ⟨before, _, _, stream, runs, finished, rfl⟩ := Branch.exists_runs_of_run ran
  have tracks := nests.tracks takes paired passes balanced runs silent
  have read : before.stream.tokens = [] := Stream.tokens_eq_nil (by rw [finished])
  obtain ⟨written, layers⟩ := tracks.finished passes read
  have clears : (nestedAt settings depth).Clears := clears_expandIncluded settings _
  exact ⟨Branch.balanced_result clears (nests.clear clear) ran written _, _, ran, layers⟩

end

/-- What an expansion from an empty scope starts with. -/
def Shared.empty (table : FileTable) : Shared :=
  ⟨Scope.empty, table, #[], []⟩

/-- The main branch of an expansion from an empty scope comes to its end. -/
def MainEnds (settings : Settings) (document : Document) (table : FileTable) (last : Branch) :
    Prop :=
  (Branch.start document (.empty table)).run settings
    (siteOf document [document.fileId] (.empty table)) (nestedAt settings 0) = .ok last

/-- In all branches of an expansion from an empty scope definitions take each brace with its
counterpart, and the verbatim environments that the main branch passes through have their braces in
pairs. -/
structure KeepsPairs (settings : Settings) (document : Document) (table : FileTable) : Prop where
  takes : TakesPairs settings document (.empty table)
  passes : Branch.PassesPairs settings (siteOf document [document.fileId] (.empty table))
    (nestedAt settings 0) (.start document (.empty table))

namespace Branch

/-- Where a branch has left the verbatim environment that it is in or has read all, if it reads no
more tokens than a given number. -/
def leavesWithin (settings : Settings) (site : Site) (nested : Nested) (branch : Branch) :
    (count : Nat) → Option Branch
  | 0 => none
  | count + 1 =>
    if branch.verbatim = none then some branch
    else
      match branch.stream.next with
      | (none, _) => some branch
      | (some token, stream) =>
        match step settings site nested { branch with stream } token with
        | .error _ => none
        | .ok later => leavesWithin settings site nested later count

/-- Whether a run follows no directive, and definitions and verbatim environments have their braces
in pairs, if it reads no more tokens than a given number. -/
def pairsWithin (settings : Settings) (site : Site) (nested : Nested) (branch : Branch) :
    (count : Nat) → Bool
  | 0 => false
  | count + 1 =>
    match branch.stream.next with
    | (none, _) => true
    | (some token, stream) =>
      (follows? { branch with stream } token).isNone &&
        (takes? { branch with stream } token).all (fun taken => decide (Token.Balanced taken)) &&
        match step settings site nested { branch with stream } token with
        | .error _ => true
        | .ok later =>
          (branch.verbatim.isSome || later.verbatim.isNone ||
            (leavesWithin settings site nested later count).any fun last =>
              decide (Token.Balanced (last.output.toList.drop branch.output.size))) &&
            pairsWithin settings site nested later count

/-- Braces come and go in pairs at a token that a branch reads. -/
structure PairsAt (settings : Settings) (site : Site) (nested : Nested) (branch : Branch)
    (token : Token) (stream : Stream) : Prop where
  follows : follows? { branch with stream } token = none
  takes : ∀ taken, takes? { branch with stream } token = some taken → Token.Balanced taken
  passes : ∀ later name, branch.verbatim = none →
    step settings site nested { branch with stream } token = .ok later →
    later.verbatim = some name → ∃ count last,
      leavesWithin settings site nested later count = some last ∧
        Token.Balanced (last.output.toList.drop branch.output.size)
  goesOn : ∀ later, step settings site nested { branch with stream } token = .ok later →
    ∃ count, pairsWithin settings site nested later count = true

theorem pairsAt_of_pairsWithin {count : Nat} {stream : Stream}
    (checked : pairsWithin settings site nested branch count = true)
    (found : branch.stream.next = (some token, stream)) :
    PairsAt settings site nested branch token stream := by
  cases count with
  | zero => cases checked
  | succ count =>
    unfold pairsWithin at checked
    rw [found] at checked
    dsimp only at checked
    simp only [Bool.and_eq_true, Option.isNone_iff_eq_none, Option.all_eq_true,
      decide_eq_true_eq] at checked
    obtain ⟨⟨follows, takes⟩, later⟩ := checked
    refine ⟨follows, takes, fun next name outside done inside => ?_, fun next done => ?_⟩
    · rw [done] at later
      simp only [outside, inside, Option.isSome_none, Option.isNone_some, Bool.false_or,
        Bool.and_eq_true, Option.any_eq_true, decide_eq_true_eq] at later
      obtain ⟨⟨last, left, balanced⟩, -⟩ := later
      exact ⟨count, last, left, balanced⟩
    · rw [done] at later
      exact ⟨count, (Bool.and_eq_true_iff.mp later).2⟩

theorem Runs.pairsAt {count : Nat} {stream : Stream}
    (checked : pairsWithin settings site nested first count = true)
    (runs : Runs settings site nested first branch called stopped)
    (found : branch.stream.next = (some token, stream)) :
    PairsAt settings site nested branch token stream := by
  have held : ∃ rest, pairsWithin settings site nested branch rest = true := by
    clear found
    induction runs with
    | start => exact ⟨count, checked⟩
    | read _ found done ih =>
      obtain ⟨rest, checked⟩ := ih
      exact (pairsAt_of_pairsWithin checked found).goesOn _ done
  obtain ⟨rest, checked⟩ := held
  exact pairsAt_of_pairsWithin checked found

/-- There is one end of a verbatim environment. -/
theorem eq_of_leavesWithin {count : Nat} {opened last : Branch} {name : Text}
    (left : leavesWithin settings site nested opened count = some last)
    (reads : Relation.ReflTransGen (ReadsWithin settings site nested name) opened after)
    (leaves : after.verbatim = none ∨ after.stream.tokens = []) : last = after := by
  induction reads using Relation.ReflTransGen.head_induction_on generalizing count with
  | refl =>
    cases count with
    | zero => cases left
    | succ count =>
      unfold leavesWithin at left
      split at left
      · exact (Option.some.inj left).symm
      · rename_i inside
        have finished := leaves.resolve_left inside
        have next := Stream.tokens_next after.stream
        split at left
        · exact (Option.some.inj left).symm
        · rename_i found
          rw [finished, found] at next
          cases next
  | head reads _ ih =>
    obtain ⟨inside, token, stream, found, done⟩ := reads
    cases count with
    | zero => cases left
    | succ count =>
      unfold leavesWithin at left
      rw [if_neg (by simp [inside]), found] at left
      dsimp only at left
      rw [done] at left
      exact ih left

theorem passesPairs_of_pairsWithin {count : Nat}
    (checked : pairsWithin settings site nested first count = true) :
    PassesPairs settings site nested first := by
  intro before _ _ tokens rest after runs expands passes
  obtain ⟨name, opened, ⟨token, stream, found, done⟩, head, reads⟩ := passes.inside
  obtain ⟨rest, last, left, balanced⟩ :=
    (runs.pairsAt checked found).passes opened name expands.code done head
  have leaves := passes.leaves
  rw [← passes.ahead] at leaves
  rw [eq_of_leavesWithin left reads leaves, passes.same] at balanced
  change Token.Balanced ((before.output ++ tokens).toList.drop before.output.size) at balanced
  rwa [Array.toList_appendList, ← Array.length_toList, List.drop_left] at balanced

end Branch

/-- Where the main branch follows no directive, there is no other branch. -/
theorem Nests.eq_main {settings : Settings} {main document : Document} {shared start : Shared}
    {depth : Nat} {ancestors : List FileId}
    (unfollowed : ∀ branch called stopped token stream,
      Branch.Runs settings (siteOf main [main.fileId] shared) (nestedAt settings 0)
        (.start main shared) branch called stopped →
      branch.stream.next = (some token, stream) →
      Branch.follows? { branch with stream } token = none)
    (nests : Nests settings main shared depth document ancestors start) :
    depth = 0 ∧ document = main ∧ ancestors = [main.fileId] ∧ start = shared := by
  induction nests with
  | main => exact ⟨rfl, rfl, rfl, rfl⟩
  | opened _ runs found _ opens ih =>
    obtain ⟨rfl, rfl, rfl, rfl⟩ := ih
    obtain ⟨directive, -, follows, -⟩ := Branch.located_of_opens opens
    cases (unfollowed _ _ _ _ _ runs found).symm.trans follows

theorem keepsPairs_of_pairsWithin {settings : Settings} {document : Document} {table : FileTable}
    {count : Nat} (checked : Branch.pairsWithin settings
      (siteOf document [document.fileId] (.empty table)) (nestedAt settings 0)
      (.start document (.empty table)) count = true) :
    KeepsPairs settings document table where
  passes := Branch.passesPairs_of_pairsWithin checked
  takes := by
    intro depth other ancestors start nests branch called stopped token stream taken runs found
    obtain ⟨rfl, rfl, rfl, rfl⟩ := nests.eq_main
      fun _ _ _ _ _ runs found => (runs.pairsAt checked found).follows
    exact (runs.pairsAt checked found).takes taken

/-- A text without `\let` whose braces match is expanded without a report. -/
structure ExpandsSilently (source : Text) (document expanded : Document) (last : Branch) :
    Prop where
  parsed : Document.parse source .standard .standard 0 = .ok document
  balanced : Token.Balanced document.tokens
  unbound : ∀ token ∈ document.tokens, token.isControlWord "let" = false
  ends : MainEnds defaults document noTable last
  done : (expand defaults document Scope.empty noTable).outcome = .ok (expanded, [])

/-- A text whose main branch is carried out, and passes a test in the end. -/
theorem exists_expandsSilently (source : Text) (count : Nat) (test : Document → Branch → Bool)
    (checked : ((Document.parse source .standard .standard 0).toOption.bind fun document =>
      (mainRun defaults document Scope.empty noTable count).filter fun last =>
        decide (Token.Balanced document.tokens) &&
          document.tokens.all (fun token => !token.isControlWord "let") &&
          last.shared.diagnostics.toList.isEmpty && test document last).isSome = true) :
    ∃ document last, ExpandsSilently source document (last.result .standard document) last ∧
      test document last = true := by
  obtain ⟨document, last, parsed, ran, passes⟩ := exists_mainRun defaults source count _ checked
  simp only [Bool.and_eq_true, decide_eq_true_eq, List.all_eq_true, Bool.not_eq_true',
    List.isEmpty_iff] at passes
  obtain ⟨⟨⟨balanced, unbound⟩, silent⟩, passes⟩ := passes
  have done := outcome_of_mainRun ran
  rw [silent] at done
  exact ⟨document, last, ⟨parsed, balanced, unbound, run_of_mainRun ran, done⟩, passes⟩

/-- **Expansion keeps braces balanced.** Where definitions and verbatim environments have their
braces in pairs, and nothing is reported, the braces of a document match in its expansion as well,
and no layer of the scope is left over at its end. -/
theorem balanced_expand {settings : Settings} {document expanded : Document} {table : FileTable}
    (balanced : Token.Balanced document.tokens) (keeps : KeepsPairs settings document table)
    (done : (expand settings document Scope.empty table).outcome = .ok (expanded, [])) :
    Token.Balanced expanded.tokens ∧ ∃ last, MainEnds settings document table last ∧
      last.shared.scope.depth = Scope.empty.depth := by
  unfold expand at done
  dsimp only at done
  split at done
  · cases done
  · rename_i ran
    obtain ⟨rfl, silent⟩ := Prod.ext_iff.mp (Except.ok.inj done)
    exact Nests.main.balanced (.empty _) keeps.takes (.empty _) keeps.passes balanced ran
      (Array.toList_eq_nil_iff.mp silent)

/-- A group with an environment that shows how a macro is used. -/
def shownUse : Text := "\x7b\\begin\x7bverbatim\x7d\x7b\\a\x7d\\end\x7bverbatim\x7d\x7d"

/-- A macro that is used in a group, and what shows its use. -/
def usedMacro : Text :=
  ("\\def\\a#1\x7b\x7b#1\x7d\x7d\x7b\\a\x7bb\x7d\x7d" : Text) ++ shownUse

theorem balanced_expand_usedMacro :
    ∃ document expanded last, ExpandsSilently usedMacro document expanded last ∧
      KeepsPairs defaults document noTable ∧
      expanded.sourceText = ("\x7b\x7bb\x7d\x7d" : Text) ++ shownUse ∧
      Token.Balanced expanded.tokens ∧ last.shared.scope.depth = Scope.empty.depth := by
  obtain ⟨document, last, silently, passes⟩ := exists_expandsSilently usedMacro 60
    (fun document last =>
      decide ((last.result .standard document).sourceText =
        ("\x7b\x7bb\x7d\x7d" : Text) ++ shownUse) &&
      Branch.pairsWithin defaults (siteOf document [document.fileId] (.empty noTable))
        (nestedAt defaults 0) (.start document (.empty noTable)) 60) (by decide +kernel)
  simp only [Bool.and_eq_true, decide_eq_true_eq] at passes
  have keeps := keepsPairs_of_pairsWithin passes.2
  obtain ⟨balanced, other, ends, depth⟩ := balanced_expand silently.balanced keeps silently.done
  obtain rfl := Except.ok.inj (ends.symm.trans silently.ends)
  exact ⟨document, _, other, silently, keeps, passes.1, balanced, depth⟩

/-- A group with an environment that shows a closing brace. -/
def shownBrace : Text := "\x7b\\begin\x7bverbatim\x7d\x7d\\end\x7bverbatim\x7d"

/-- A brace in a verbatim environment closes no group, so that the layer of a group around it is
left over; and a definition takes the brace that closes the group around it. -/
theorem exists_unclosed :
    (∃ document expanded last, ExpandsSilently shownBrace document expanded last ∧
      last.shared.scope.depth = Scope.empty.depth + 1) ∧
    ∃ document expanded last,
      ExpandsSilently "\x7b\\newcommand\\a\x7d" document expanded last ∧
      ¬ Token.Balanced expanded.tokens := by
  constructor
  · obtain ⟨document, last, silently, passes⟩ := exists_expandsSilently shownBrace 30
      (fun _ last => decide (last.shared.scope.depth = Scope.empty.depth + 1)) (by decide +kernel)
    exact ⟨document, _, last, silently, of_decide_eq_true passes⟩
  · obtain ⟨document, last, silently, passes⟩ := exists_expandsSilently
      "\x7b\\newcommand\\a\x7d" 10 (fun document last =>
        decide (¬ Token.Balanced (last.result .standard document).tokens)) (by decide +kernel)
    exact ⟨document, _, last, silently, of_decide_eq_true passes⟩

end Expansion

end TexSource
