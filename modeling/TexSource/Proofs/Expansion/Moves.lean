import TexSource.Proofs.Document.BraceDepth
import TexSource.Proofs.Expansion.Directives

/-!
# What a step can do

A step writes its token, changes the scope by it, defines a macro, gives a construct up, calls a
macro, passes verbatim text, or follows a directive. `Branch.Moves` lists these moves with the
branch that each of them leads to, and with the scan it rests on; every step is one of them
(`Branch.moves_of_step`).
-/

namespace TexSource

namespace Expansion

/-- The macro that is defined behind marks. -/
def Scan.Marked.definition? : Marked → Option Macro
  | .defines definition => some definition
  | .givenUp => none
  | .notOurs => none

namespace Branch

/-- A scan finds a definition of a macro. -/
inductive Defines (branch : Branch) : {Result : Type} → Scan Result → Macro → Prop where
  | definition {definition : Macro} (isGlobal : Bool)
      (found : (branch.attempt (Scan.definition isGlobal)).1 = some definition) :
      Defines branch (Scan.definition isGlobal) definition
  | letBinding {definition : Macro}
      (found : (branch.attempt (Scan.letBinding branch.shared.scope false)).1 = some definition) :
      Defines branch (Scan.letBinding branch.shared.scope false) definition
  | marked {definition : Macro} (isGlobal : Bool)
      (found : (branch.attempt (Scan.marked branch.shared.scope isGlobal)).1 =
        .defines definition) :
      Defines branch (Scan.marked branch.shared.scope isGlobal) definition
  | newCommand {definition : Macro}
      (found : (branch.attempt Scan.newCommand).1 = .ok (some definition)) :
      Defines branch Scan.newCommand definition

/-- The tokens that a scan takes, if it finds a definition. -/
def takenBy {Result : Type} (branch : Branch) (scan : Scan Result) (finds : Result → Bool) :
    Option (List Token) :=
  let (result, consumed, _) := branch.attempt scan
  if finds result then some consumed else none

/-- The tokens that a definition takes from behind its control word. -/
def takesBehind? (branch : Branch) (word : Text) : Option (List Token) :=
  if Scan.isDefinitionMark word then
    branch.takenBy (Scan.marked branch.shared.scope (word = "global")) (·.definition?.isSome)
  else
    match Scan.definer? word with
    | some isGlobal => branch.takenBy (Scan.definition isGlobal) Option.isSome
    | none =>
      if word = "let" then
        branch.takenBy (Scan.letBinding branch.shared.scope false) Option.isSome
      else if isNewCommandWord word then
        branch.takenBy Scan.newCommand (·.toOption.join.isSome)
      else none

/-- The tokens that a branch takes from behind a token for a definition, if it carries out one. -/
def takes? (branch : Branch) (token : Token) : Option (List Token) :=
  if branch.aborted || branch.verbatim.isSome || (branch.meaning? token).isSome then none
  else
    match token.kind with
    | .controlWord word => branch.takesBehind? word
    | _ => none

/-- What a branch becomes at a token that it has read. -/
inductive Moves (settings : Settings) (site : Site) (nested : Nested) (branch : Branch)
    (token : Token) : Branch → Prop where
  /-- Outside of the expansion any token is written as it is, and inside of it one that is no
  brace. -/
  | writes (plain : branch.aborted = true ∨ branch.verbatim.isSome = true ∨
      token.isBeginGroup = false ∧ token.isEndGroup = false) :
      Moves settings site nested branch token (branch.write [token])
  | opens (running : branch.aborted = false) (code : branch.verbatim = none)
      (brace : token.isBeginGroup = true) :
      Moves settings site nested branch token ((branch.withScope (·.push)).write [token])
  | closes (running : branch.aborted = false) (code : branch.verbatim = none)
      (brace : token.isEndGroup = true) :
      Moves settings site nested branch token
        ((branch.withScope fun scope =>
          if site.baseDepth < scope.depth then scope.pop else scope).write [token])
  | defines {Result : Type} {scan : Scan Result} {definition : Macro}
      (found : branch.Defines scan definition)
      (takes : branch.takes? token = some (branch.attempt scan).2.1) :
      Moves settings site nested branch token
        ((branch.attempt scan).2.2.withScope (·.define definition))
  /-- A command that is only provided has a meaning already. -/
  | provides {Result : Type} {scan : Scan Result} {definition : Macro}
      (found : branch.Defines scan definition)
      (takes : branch.takes? token = some (branch.attempt scan).2.1) :
      Moves settings site nested branch token (branch.attempt scan).2.2
  /-- Marks belong to no definition. -/
  | unmarked (isGlobal : Bool)
      (found : (branch.attempt (Scan.marked branch.shared.scope isGlobal)).1 = .notOurs)
      (plain : token.isBrace = false) :
      Moves settings site nested branch token
        ((branch.attempt (Scan.marked branch.shared.scope isGlobal)).2.2.write
          (token :: (branch.attempt (Scan.marked branch.shared.scope isGlobal)).2.1))
  | givesUp {Result : Type} (scan : Scan Result)
      (composed : ∀ {property : {Result : Type} → Scan Result → Prop},
        Scan.Composes property → property scan)
      (plain : token.isBrace = false) :
      Moves settings site nested branch token
        ((branch.attempt scan).2.2.giveUp token (branch.attempt scan).2.1)
  /-- A limit refuses the use of a macro. -/
  | refuses (problem : Problem) (aborted : Bool)
      (limit : problem.kind = .maxExpansionDepthExceeded) :
      Moves settings site nested branch token
        { (branch.report problem token.span).write [token] with aborted }
  | misses {definition : Macro} (problem : Problem)
      (failed : ({ branch with steps := branch.steps + 1 }.attempt
        (Scan.invocation definition token)).1 = .error problem) :
      Moves settings site nested branch token
        ((({ branch with steps := branch.steps + 1 }.attempt
          (Scan.invocation definition token)).2.2.report problem token.span).giveUp token
            ({ branch with steps := branch.steps + 1 }.attempt
              (Scan.invocation definition token)).2.1)
  | calls {definition : Macro} {arguments : List (List Token)}
      (running : branch.aborted = false) (code : branch.verbatim = none)
      (meaning : branch.meaning? token = some definition)
      (found : ({ branch with steps := branch.steps + 1 }.attempt
        (Scan.invocation definition token)).1 = .ok arguments) :
      Moves settings site nested branch token
        { ({ branch with steps := branch.steps + 1 }.attempt
            (Scan.invocation definition token)).2.2 with
          stream := ({ branch with steps := branch.steps + 1 }.attempt
            (Scan.invocation definition token)).2.2.stream.pushCall definition.name
              (Macro.substitute arguments definition.replacement) }
  /-- The head of a verbatim environment is written. -/
  | enters (name : Text) (running : branch.aborted = false) (code : branch.verbatim = none) :
      Moves settings site nested branch token
        { (branch.attempt Scan.environmentName).2.2.write
            (token :: (branch.attempt Scan.environmentName).2.1) with verbatim := some name }
  /-- An `\end` in a verbatim environment is written, whether it is the end of that or not. -/
  | passes (verbatim : Option Text) (code : branch.verbatim.isSome = true) :
      Moves settings site nested branch token
        { (branch.attempt Scan.environmentName).2.2.write
            (token :: (branch.attempt Scan.environmentName).2.1) with verbatim }
  | follows {directive : Scan.Directive} {inclusion : Option Inclusion} {shared : Shared}
      (follows : branch.follows? token = some directive)
      (loaded : load settings site nested directive.name token.span branch.shared =
        .ok (inclusion, shared)) :
      Moves settings site nested branch token
        { (branch.attempt Scan.inclusion).2.2.write (Scan.enclosed
            { token with ticket := inclusion.map fun _ => branch.inclusions.size }
            directive.tokens) with
          inclusions := branch.inclusions ++ inclusion.toList
          shared }

variable {settings : Settings} {site : Site} {nested : Nested} {branch after : Branch}
  {token : Token}

theorem isBrace_of_kind {word : Text} (kind : token.kind = .controlWord word) :
    token.isBrace = false := by
  simp [Token.isBrace, Token.isBeginGroup, Token.isEndGroup, kind]

theorem takenBy_of_finds {Result : Type} {scan : Scan Result} {finds : Result → Bool}
    (found : finds (branch.attempt scan).1 = true) :
    branch.takenBy scan finds = some (branch.attempt scan).2.1 :=
  if_pos found

theorem takes?_of_word {word : Text} (running : branch.aborted = false)
    (code : branch.verbatim = none) (unbound : branch.meaning? token = none)
    (kind : token.kind = .controlWord word) : branch.takes? token = branch.takesBehind? word := by
  simp [takes?, running, code, unbound, kind]

theorem moves_defineMarked {word : Text} (kind : token.kind = .controlWord word)
    (marks : Scan.isDefinitionMark word = true)
    (takes : branch.takes? token = branch.takesBehind? word) :
    Moves settings site nested branch token (branch.defineMarked token (word = "global")) := by
  unfold defineMarked
  dsimp only
  rw [takesBehind?, if_pos marks] at takes
  split
  · rename_i found
    exact .defines (.marked _ found) (takes.trans (takenBy_of_finds (by rw [found]; rfl)))
  · exact .givesUp _ (fun composes => composes.marked ..) (isBrace_of_kind kind)
  · rename_i found
    exact .unmarked _ found (isBrace_of_kind kind)

theorem moves_defineBy {word : Text} {scan : Scan (Option Macro)}
    (kind : token.kind = .controlWord word)
    (composed : ∀ {property : {Result : Type} → Scan Result → Prop},
      Scan.Composes property → property scan)
    (found : ∀ definition, (branch.attempt scan).1 = some definition →
      branch.Defines scan definition)
    (takes : branch.takes? token = branch.takenBy scan Option.isSome) :
    Moves settings site nested branch token (branch.defineBy token scan) := by
  unfold defineBy
  dsimp only
  cases outcome : (branch.attempt scan).1 with
  | none => exact .givesUp _ composed (isBrace_of_kind kind)
  | some definition =>
    refine .defines (found definition outcome) (takes.trans (takenBy_of_finds ?_))
    rw [outcome, Option.isSome_some]

theorem moves_defineNewCommand {word : Text} (kind : token.kind = .controlWord word)
    (takes : branch.takes? token =
      branch.takenBy Scan.newCommand (·.toOption.join.isSome))
    (done : branch.defineNewCommand token word = .ok after) :
    Moves settings site nested branch token after := by
  unfold defineNewCommand at done
  dsimp only at done
  split at done
  · cases done
  · cases done
    exact .givesUp _ (fun composes => composes.newCommand) (isBrace_of_kind kind)
  · rename_i found
    have takes := takes.trans (takenBy_of_finds (by rw [found]; rfl))
    split at done
    · cases done
      exact .provides (.newCommand found) takes
    · cases done
      exact .defines (.newCommand found) takes

theorem moves_invoke {definition : Macro} (running : branch.aborted = false)
    (code : branch.verbatim = none) (meaning : branch.meaning? token = some definition)
    (done : branch.invoke settings.limits token definition = .ok after) :
    Moves settings site nested branch token after := by
  unfold invoke at done
  split at done
  · cases done
  · cases done
    exact .refuses _ true rfl
  · cases done
    exact .refuses _ branch.aborted rfl
  · cases done
    unfold call
    dsimp only
    split
    · rename_i problem failed
      exact .misses problem failed
    · rename_i found
      exact .calls running code meaning found

theorem moves_beginEnvironment {word : Text} (commands : CommandTable)
    (running : branch.aborted = false) (code : branch.verbatim = none)
    (kind : token.kind = .controlWord word) :
    Moves settings site nested branch token (branch.beginEnvironment commands token) := by
  unfold beginEnvironment
  dsimp only
  split
  · exact .enters _ running code
  · exact .givesUp _ (fun composes => composes.environmentName) (isBrace_of_kind kind)

theorem moves_passVerbatim {name : Text} (code : branch.verbatim = some name) :
    Moves settings site nested branch token (branch.passVerbatim name token) := by
  have inside : branch.verbatim.isSome = true := by rw [code, Option.isSome_some]
  unfold passVerbatim
  split
  · exact .passes _ inside
  · exact .writes (.inr (.inl inside))

theorem moves_obey {word : Text} (running : branch.aborted = false)
    (code : branch.verbatim = none) (unbound : branch.meaning? token = none)
    (kind : token.kind = .controlWord word)
    (unfollowed : isInclusionWord word = true → (branch.attempt Scan.inclusion).1 = none)
    (done : branch.obey settings site nested token word = .ok after) :
    Moves settings site nested branch token after := by
  have takes := takes?_of_word running code unbound kind
  unfold obey at done
  split at done
  · rename_i marks
    cases done
    exact moves_defineMarked kind marks takes
  rename_i unmarked
  rw [takesBehind?, if_neg unmarked] at takes
  split at done
  · rename_i isGlobal defines
    cases done
    rw [defines] at takes
    exact moves_defineBy kind (fun composes => composes.definition isGlobal)
      (fun _ found => .definition isGlobal found) takes
  rename_i undefined
  rw [undefined] at takes
  dsimp only at takes
  split at done
  · rename_i binds
    cases done
    rw [if_pos binds] at takes
    exact moves_defineBy kind (fun composes => composes.letBinding ..)
      (fun _ found => .letBinding found) takes
  rename_i unbinding
  rw [if_neg unbinding] at takes
  split at done
  · rename_i commands
    rw [if_pos commands] at takes
    exact moves_defineNewCommand kind takes done
  split at done
  · rename_i includes
    unfold followDirective at done
    dsimp only at done
    rw [unfollowed includes] at done
    cases done
    exact .givesUp _ (fun composes => composes.inclusion) (isBrace_of_kind kind)
  split at done
  · cases done
    exact moves_beginEnvironment _ running code kind
  · cases done
    exact .writes (.inr (.inr (Token.isBrace_eq_false_iff.mp (isBrace_of_kind kind))))

/-- **Every step is a move.** -/
theorem moves_of_step (done : step settings site nested branch token = .ok after) :
    Moves settings site nested branch token after := by
  cases follows : branch.follows? token with
  | some directive =>
    rw [step_of_load follows] at done
    cases loaded : load settings site nested directive.name token.span branch.shared with
    | error abort =>
      rw [loaded] at done
      cases done
    | ok result =>
      rw [loaded] at done
      cases done
      exact .follows follows loaded
  | none =>
    unfold step at done
    split at done
    · rename_i aborted
      cases done
      exact .writes (.inl aborted)
    · rename_i running
      have running : branch.aborted = false := by simpa using running
      cases code : branch.verbatim with
      | some name =>
        rw [code] at done
        cases done
        exact moves_passVerbatim code
      | none =>
        rw [code] at done
        dsimp only at done
        cases meaning : branch.meaning? token with
        | some definition =>
          rw [meaning] at done
          exact moves_invoke running code meaning done
        | none =>
          rw [meaning] at done
          dsimp only at done
          split at done
          · rename_i kind
            cases done
            exact .opens running code (by simp [Token.isBeginGroup, kind])
          · rename_i kind
            cases done
            exact .closes running code (by simp [Token.isEndGroup, kind])
          · rename_i word kind
            refine moves_obey running code meaning kind (fun includes => ?_) done
            simpa [follows?, running, code, meaning, kind, includes] using follows
          · rename_i opens closes _
            cases done
            refine .writes (.inr (.inr ?_))
            cases kind : token.kind <;> simp_all [Token.isBeginGroup, Token.isEndGroup]

end Branch

end Expansion

end TexSource
