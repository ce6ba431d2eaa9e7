import Mathlib.Logic.Relation
import TexSource.Proofs.Document.Passages
import TexSource.Proofs.Expansion.Printed
import TexSource.Proofs.Expansion.Replacement

/-!
# Verbatim environments in an expansion

An expansion has no tree: it goes by the tokens that it reads. Where it has nothing but tokens of a
document ahead, from the start of a segment on, it passes the segment through as a verbatim
environment if and only if it is one in the tree of the document.
-/

namespace TexSource

namespace Expansion

namespace Scan

variable {Second : Type} {tokens rest spaces label : List Token} {opener closer : Token}

/-- The name of an environment, in a group that is closed. -/
theorem consumes_environmentName (blank : ∀ token ∈ spaces, token.isSpace = true)
    (opens : opener.isBeginGroup = true) (balanced : Token.Balanced label)
    (closes : closer.isEndGroup = true) (rest : List Token) :
    Consumes environmentName (spaces ++ opener :: (label ++ [closer])) rest
      (some (Token.rawText label).strip) := by
  rw [List.append_cons]
  refine (consumes_pastSpaces blank (Token.isSpace_of_isBeginGroup opens) _).bind ?_
  dsimp only
  rw [if_pos opens]
  exact (consumes_closedGroup balanced closes rest).map fun body =>
    body.map fun body => (Token.rawText body).strip

/-- A group that is not closed is read to the end. -/
theorem consumes_environmentName_unclosed (blank : ∀ token ∈ spaces, token.isSpace = true)
    (opens : opener.isBeginGroup = true) {depth : Nat}
    (unclosed : Token.depthBehind 0 label = some depth) :
    Consumes environmentName (spaces ++ opener :: label) [] none := by
  rw [List.append_cons]
  refine (consumes_pastSpaces blank (Token.isSpace_of_isBeginGroup opens) _).bind ?_
  dsimp only
  rw [if_pos opens]
  have body : Consumes closedGroup label [] none :=
    .readAll (goes_groupTest unclosed) fun _ => .pure _ _
  exact body.map fun body => body.map fun body => (Token.rawText body).strip

/-- Where no group stands ahead, nothing but spaces is read. -/
theorem consumes_environmentName_none (blank : ∀ token ∈ spaces, token.isSpace = true)
    (other : ∀ token ∈ rest.head?, token.isSpace = false ∧ token.isBeginGroup = false) :
    Consumes environmentName spaces rest none := by
  cases rest with
  | nil =>
    have first : Consumes (nextSignificant true) spaces [] none :=
      .readAll (goes_skipped (isSkipped_of_isSpace blank)) fun _ => .pure _ _
    rw [← List.append_nil spaces]
    refine first.bind ?_
    exact .pure none []
  | cons token rest =>
    obtain ⟨solid, unbraced⟩ := other token rfl
    refine (consumes_pastSpaces blank solid rest).unread ?_
    simp [unbraced]

/-- What a scan for the name of an environment comes to, and that it loses no token. -/
theorem exists_environmentName (tokens : List Token) :
    ∃ front rest, tokens = front ++ rest ∧
      Consumes environmentName front rest (Token.labelAhead tokens) := by
  cases Token.groupAhead tokens with
  | @closed _ _ behind _ _ blank opens balanced closes =>
    rw [Token.labelAhead_of_balanced blank opens balanced closes]
    exact ⟨_, behind, by simp, consumes_environmentName blank opens balanced closes behind⟩
  | unclosed blank opens unclosed =>
    rw [Token.labelAhead_of_unclosed blank opens unclosed]
    exact ⟨_, [], (List.append_nil _).symm,
      consumes_environmentName_unclosed blank opens unclosed⟩
  | none blank other =>
    rw [Token.labelAhead_of_other blank other]
    exact ⟨_, _, rfl, consumes_environmentName_none blank other⟩

/-- A scan for a name behind an `\end` stays within tokens that hold no end of the environment. -/
theorem exists_environmentName_held {word : Token} {name : Text} {held : List Token}
    (ends : word.isControlWord "end" = true)
    (quiet : Token.namesOthers name (word :: held) = true)
    (solid : ∀ token ∈ rest.head?, token.isSpace = false ∧ token.isBeginGroup = false) :
    ∃ front back found, held = front ++ back ∧ found ≠ some name ∧
      Consumes environmentName front (back ++ rest) found := by
  simp only [Token.namesOthers, ends, Bool.not_true, Bool.false_or, Bool.and_eq_true,
    Bool.or_eq_true, Bool.not_eq_true'] at quiet
  obtain ⟨other, -⟩ := quiet
  cases Token.groupAhead held with
  | @closed _ label behind _ _ blank opens balanced closes =>
    rw [Token.dropWhile_spaces blank opens,
      Token.labelAhead_of_balanced blank opens balanced closes] at other
    have differs : (Token.rawText label).strip ≠ name := by simpa [opens] using other
    exact ⟨_, behind, _, by simp, by simpa using differs,
      consumes_environmentName blank opens balanced closes (behind ++ rest)⟩
  | unclosed blank opens unclosed =>
    rw [Token.dropWhile_spaces blank opens,
      Token.labelAhead_of_unclosed blank opens unclosed] at other
    simp [opens] at other
  | @none spaces behind blank solidBehind =>
    refine ⟨spaces, behind, none, rfl, by simp, consumes_environmentName_none blank ?_⟩
    cases behind with
    | nil => exact solid
    | cons token behind => exact solidBehind

end Scan

namespace Branch

variable {settings : Settings} {site : Site} {nested : Nested} {branch after : Branch}
  {tokens rest : List Token} {name : Text}

/-- A branch that deals with tokens has the given ones ahead, and `\begin` is no macro. -/
structure Stands (branch : Branch) (tokens : List Token) : Prop where
  ahead : branch.stream.tokens = tokens
  expands : branch.Expands
  unbound : branch.shared.scope.lookup "begin" = none

/-- A branch reads a token in the named environment. -/
def ReadsWithin (settings : Settings) (site : Site) (nested : Nested) (name : Text)
    (before after : Branch) : Prop :=
  before.verbatim = some name ∧ Reads settings site nested before after

/-- A branch passes tokens through as a verbatim environment, and leaves the rest to be read.
Nothing but the output is changed; the environment is left behind unless the input ends in it. -/
structure PassesThrough (settings : Settings) (site : Site) (nested : Nested)
    (before : Branch) (tokens rest : List Token) (after : Branch) : Prop where
  ahead : after.stream.tokens = rest
  same : after = { before with
    stream := after.stream, verbatim := after.verbatim, output := before.output ++ tokens }
  inside : ∃ name opened, Reads settings site nested before opened ∧ opened.verbatim = some name ∧
    Relation.ReflTransGen (ReadsWithin settings site nested name) opened after
  leaves : after.verbatim = none ∨ rest = []

theorem obey_begin (token : Token) :
    branch.obey settings site nested token "begin" =
      .ok (branch.beginEnvironment settings.commands token) := rfl

/-- The head of a verbatim environment is written, and its body will be. -/
theorem reads_begin (site : Site) (nested : Nested) {label : List Token}
    (stands : branch.Stands (label ++ rest))
    (begins : Token.Labelled "begin" name label)
    (verbatim : settings.commands.isVerbatim name = true) :
    ∃ stream : Stream, stream.tokens = rest ∧
      Reads settings site nested branch { branch with
        stream, verbatim := some name, output := branch.output ++ label } := by
  cases begins with
  | @intro head opener closer spaces label isWord blank opens balanced closes =>
    obtain ⟨behind, found, left⟩ := exists_next stands.ahead
    have consumes := Scan.consumes_environmentName blank opens balanced closes rest
    let between : Branch := { branch with stream := behind }
    obtain ⟨stream, ahead, read⟩ := attempt_of_consumes consumes between left
    refine ⟨stream, ahead, head, behind, found, ?_⟩
    have same : between.Expands := ⟨stands.expands.running, stands.expands.code⟩
    rw [step_of_word same (Token.kind_of_isControlWord isWord) stands.unbound, obey_begin,
      beginEnvironment, read]
    have kept : (some (Token.rawText label).strip).filter settings.commands.isVerbatim =
        some (Token.rawText label).strip := Option.filter_some_pos verbatim
    simp [kept, write, between]

/-- An `\end` in the environment that a branch is in, with what is read behind it. -/
theorem reads_word_end (settings : Settings) (site : Site) (nested : Nested) {word : Token}
    {front : List Token} {found : Option Text}
    (running : branch.aborted = false) (inside : branch.verbatim = some name)
    (isWord : word.isControlWord "end" = true)
    (consumes : Scan.Consumes Scan.environmentName front rest found)
    (ahead : branch.stream.tokens = word :: (front ++ rest)) :
    ∃ stream : Stream, stream.tokens = rest ∧
      Reads settings site nested branch { branch with
        stream, verbatim := if found = some name then none else some name
        output := branch.output ++ (word :: front) } := by
  obtain ⟨behind, next, left⟩ := exists_next ahead
  obtain ⟨stream, later, read⟩ := attempt_of_consumes consumes { branch with stream := behind } left
  refine ⟨stream, later, word, behind, next, ?_⟩
  rw [step, if_neg (by simp [running]), inside]
  dsimp only
  rw [passVerbatim, if_pos isWord, ← inside, read]
  rfl

/-- The end of the environment that a branch is in. -/
theorem reads_end (settings : Settings) (site : Site) (nested : Nested) {last : List Token}
    (running : branch.aborted = false) (inside : branch.verbatim = some name)
    (ends : Token.Labelled "end" name last) (ahead : branch.stream.tokens = last ++ rest) :
    ∃ stream : Stream, stream.tokens = rest ∧
      Reads settings site nested branch { branch with
        stream, verbatim := none, output := branch.output ++ last } := by
  cases ends with
  | intro isWord blank opens balanced closes =>
    have consumes := Scan.consumes_environmentName blank opens balanced closes rest
    simpa using reads_word_end settings site nested running inside isWord consumes ahead

/-- A token in the environment that a branch is in, with what is read behind it. -/
theorem exists_reads_held (settings : Settings) (site : Site) (nested : Nested) {token : Token}
    {held : List Token} (running : branch.aborted = false) (inside : branch.verbatim = some name)
    (quiet : Token.namesOthers name (token :: held) = true)
    (solid : ∀ token ∈ rest.head?, token.isSpace = false ∧ token.isBeginGroup = false)
    (ahead : branch.stream.tokens = token :: (held ++ rest)) :
    ∃ (front back : List Token) (stream : Stream), held = front ++ back ∧
      stream.tokens = back ++ rest ∧
      Reads settings site nested branch { branch with
        stream, output := branch.output ++ (token :: front) } := by
  by_cases ends : token.isControlWord "end" = true
  · obtain ⟨front, back, found, rfl, other, consumes⟩ :=
      Scan.exists_environmentName_held ends quiet solid
    rw [List.append_assoc] at ahead
    obtain ⟨stream, left, reads⟩ := reads_word_end settings site nested running inside ends
      consumes ahead
    rw [if_neg other, ← inside] at reads
    exact ⟨front, back, stream, rfl, left, reads⟩
  · obtain ⟨stream, next, left⟩ := exists_next ahead
    refine ⟨[], held, stream, rfl, left, token, stream, next, ?_⟩
    rw [step, if_neg (by simp [running]), inside]
    dsimp only
    rw [passVerbatim, if_neg ends, ← inside]
    rfl

theorem appendList_assoc {Item : Type} (items : Array Item) (first second : List Item) :
    items ++ first ++ second = items ++ (first ++ second) := by
  apply Array.toList_inj.mp
  simp

/-- Tokens that hold no end of the environment that a branch is in are written as they are. -/
theorem exists_readsWithin (settings : Settings) (site : Site) (nested : Nested)
    {held : List Token} (running : branch.aborted = false) (inside : branch.verbatim = some name)
    (quiet : Token.namesOthers name held = true)
    (solid : ∀ token ∈ rest.head?, token.isSpace = false ∧ token.isBeginGroup = false)
    (ahead : branch.stream.tokens = held ++ rest) :
    ∃ stream : Stream, stream.tokens = rest ∧
      Relation.ReflTransGen (ReadsWithin settings site nested name) branch { branch with
        stream, output := branch.output ++ held } := by
  generalize size : held.length = count
  induction count using Nat.strong_induction_on generalizing branch held with
  | _ count ih =>
    cases held with
    | nil => exact ⟨branch.stream, ahead, by rw [Array.appendList_nil]⟩
    | cons token held =>
      obtain ⟨front, back, stream, rfl, left, reads⟩ :=
        exists_reads_held settings site nested running inside quiet solid ahead
      have later : Token.namesOthers name back = true :=
        Token.namesOthers_of_append (token :: front) quiet
      have shorter : back.length < count := by
        rw [← size, List.length_cons, List.length_append]
        omega
      let next : Branch := { branch with stream, output := branch.output ++ (token :: front) }
      have same : next.aborted = false ∧ next.verbatim = some name := ⟨running, inside⟩
      obtain ⟨last, done, run⟩ := ih back.length shorter same.1 same.2 later left rfl
      rw [appendList_assoc] at run
      exact ⟨last, done, .head ⟨inside, reads⟩ run⟩

theorem solid_of_labelled {word : Text} {label : List Token}
    (labelled : Token.Labelled word name label) (rest : List Token) :
    ∀ token ∈ (label ++ rest).head?, token.isSpace = false ∧ token.isBeginGroup = false := by
  cases labelled with
  | intro isWord =>
    have kind := Token.kind_of_isControlWord isWord
    intro token first
    cases first
    simp [Token.isSpace, Token.isBeginGroup, kind]

/-- **A verbatim environment is passed through.** -/
theorem exists_passesThrough (site : Site) (nested : Nested) {environment : Node}
    (fits : (Segment.passage environment).Fits settings.commands rest)
    (stands : branch.Stands (environment.tokens ++ rest)) :
    ∃ after, PassesThrough settings site nested branch environment.tokens rest after := by
  cases fits with
  | @ended _ name _ _ _ _ _ label held last _ verbatim begins quiet ends whole =>
    rw [whole, List.append_assoc, List.append_assoc] at stands
    obtain ⟨first, ahead, opens⟩ := reads_begin site nested stands begins verbatim
    let opened : Branch :=
      { branch with stream := first, verbatim := some name, output := branch.output ++ label }
    have inside : opened.aborted = false ∧ opened.verbatim = some name :=
      ⟨stands.expands.running, rfl⟩
    obtain ⟨second, ahead, run⟩ := exists_readsWithin settings site nested inside.1 inside.2 quiet
      (solid_of_labelled ends rest) ahead
    let held : Branch := { opened with stream := second, output := opened.output ++ held }
    have inside : held.aborted = false ∧ held.verbatim = some name := inside
    obtain ⟨third, ahead, closes⟩ := reads_end settings site nested inside.1 inside.2 ends ahead
    refine ⟨_, ahead, ?_, ⟨name, opened, opens, rfl, run.tail ⟨inside.2, closes⟩⟩, .inl rfl⟩
    rw [whole, ← appendList_assoc, ← appendList_assoc]
  | @unended _ name _ _ _ _ label held verbatim begins quiet whole =>
    rw [whole, List.append_nil] at stands
    obtain ⟨first, ahead, opens⟩ := reads_begin site nested stands begins verbatim
    let opened : Branch :=
      { branch with stream := first, verbatim := some name, output := branch.output ++ label }
    have inside : opened.aborted = false ∧ opened.verbatim = some name :=
      ⟨stands.expands.running, rfl⟩
    rw [← List.append_nil held] at ahead
    obtain ⟨second, ahead, run⟩ := exists_readsWithin settings site nested inside.1 inside.2 quiet
      (by simp) ahead
    refine ⟨_, ahead, ?_, ⟨name, opened, opens, rfl, run⟩, .inr rfl⟩
    rw [whole, ← appendList_assoc]

theorem verbatim_invoke {limits : Limits} {use : Token} {definition : Macro}
    (done : branch.invoke limits use definition = .ok after) :
    after.verbatim = branch.verbatim := by
  unfold invoke at done
  split at done
  · cases done
  · cases done
    rfl
  · cases done
    rfl
  · cases done
    unfold call
    dsimp only
    split <;> rfl

theorem verbatim_defineBy (branch : Branch) (first : Token) (scan : Scan (Option Macro)) :
    (branch.defineBy first scan).verbatim = branch.verbatim := by
  unfold defineBy
  dsimp only
  cases (branch.attempt scan).1 <;> rfl

theorem verbatim_defineMarked (branch : Branch) (first : Token) (isGlobal : Bool) :
    (branch.defineMarked first isGlobal).verbatim = branch.verbatim := by
  unfold defineMarked
  dsimp only
  split <;> rfl

theorem verbatim_defineNewCommand {first : Token} {word : Text}
    (done : branch.defineNewCommand first word = .ok after) :
    after.verbatim = branch.verbatim := by
  unfold defineNewCommand at done
  dsimp only at done
  split at done
  · cases done
  · cases done
    rfl
  · split at done <;> cases done <;> rfl

theorem verbatim_followDirective {first : Token}
    (done : branch.followDirective settings site nested first = .ok after) :
    after.verbatim = branch.verbatim := by
  unfold followDirective at done
  dsimp only at done
  split at done
  · cases done
    rfl
  · rename_i directive _
    cases loaded : load settings site nested directive.name first.span
        (branch.attempt Scan.inclusion).2.2.shared with
    | error abort =>
      rw [loaded] at done
      cases done
    | ok result =>
      rw [loaded] at done
      cases done
      rfl

/-- Only a `\begin` with the name of a verbatim environment behind it opens one. -/
theorem verbatim_beginEnvironment (commands : CommandTable) (token : Token)
    (other : ∀ name ∈ Token.labelAhead branch.stream.tokens, commands.isVerbatim name = false) :
    (branch.beginEnvironment commands token).verbatim = branch.verbatim := by
  obtain ⟨front, rest, split, consumes⟩ := Scan.exists_environmentName branch.stream.tokens
  obtain ⟨stream, -, read⟩ := attempt_of_consumes consumes branch split
  have none : (Token.labelAhead branch.stream.tokens).filter commands.isVerbatim = none := by
    rw [Option.filter_eq_none_iff]
    exact fun name found => by simpa using other name found
  rw [beginEnvironment, read]
  simp [none, giveUp, write]

theorem verbatim_obey {token : Token} {word : Text}
    (other : word = "begin" → ∀ name ∈ Token.labelAhead branch.stream.tokens,
      settings.commands.isVerbatim name = false)
    (done : branch.obey settings site nested token word = .ok after) :
    after.verbatim = branch.verbatim := by
  unfold obey at done
  split at done
  · cases done
    exact verbatim_defineMarked ..
  · split at done
    · cases done
      exact verbatim_defineBy ..
    · split at done
      · cases done
        exact verbatim_defineBy ..
      · split at done
        · exact verbatim_defineNewCommand done
        · split at done
          · exact verbatim_followDirective done
          · split at done
            · rename_i begins
              cases done
              exact verbatim_beginEnvironment settings.commands token (other begins)
            · cases done
              rfl

/-- **No verbatim environment is opened at a token outside of them.** -/
theorem verbatim_of_reads {placed : Placed}
    (fits : (Segment.token placed).Fits settings.commands rest)
    (stands : branch.Stands (placed.token :: rest))
    (reads : Reads settings site nested branch after) : after.verbatim = none := by
  obtain ⟨token, stream, found, done⟩ := reads
  obtain ⟨behind, next, left⟩ := exists_next stands.ahead
  cases found.symm.trans next
  cases fits with
  | token outside =>
    rw [step, if_neg (by simp [stands.expands.running]), stands.expands.code] at done
    dsimp only at done
    split at done
    · exact verbatim_invoke done
    · split at done
      · cases done
        rfl
      · cases done
        rfl
      · rename_i word kind
        refine verbatim_obey (fun begins => ?_) done
        rw [left]
        exact outside (by simp [Token.isControlWord, kind, begins])
      · cases done
        rfl

variable {before last : Branch} {passed : List Node} {pushed : List Token}
  {segments : List Segment}

/-- A run keeps to the borders of the verbatim environments of a document: none of its reads goes
past the start of one, and the tokens that are pushed in front of the document begin none. What is
read of the document itself is free to. -/
inductive KeepsBorders (settings : Settings) (site : Site) (nested : Nested) :
    Branch → (pushed : List Token) → List Segment → Prop where
  | finished {branch : Branch} (ahead : branch.stream.tokens = []) :
      KeepsBorders settings site nested branch [] []
  | pushed {branch after : Branch} {token : Token} {pushed left : List Token}
      {segments skipped rest : List Segment}
      (stands : branch.Stands (token :: pushed ++ Segment.tokens segments))
      (reads : Reads settings site nested branch after) (outside : after.verbatim = none)
      (split : segments = skipped ++ rest) (free : ∀ segment ∈ skipped, segment.passage? = none)
      (later : KeepsBorders settings site nested after left rest) :
      KeepsBorders settings site nested branch (token :: pushed) segments
  | token {branch after : Branch} {placed : Placed} {left : List Token}
      {segments skipped rest : List Segment}
      (stands : branch.Stands (Segment.tokens (.token placed :: segments)))
      (reads : Reads settings site nested branch after)
      (split : segments = skipped ++ rest) (free : ∀ segment ∈ skipped, segment.passage? = none)
      (later : after.verbatim = none → KeepsBorders settings site nested after left rest) :
      KeepsBorders settings site nested branch [] (.token placed :: segments)
  | passage {branch : Branch} {environment : Node} {rest : List Segment}
      (stands : branch.Stands (Segment.tokens (.passage environment :: rest)))
      (later : ∀ after, Relation.ReflTransGen (Reads settings site nested) branch after →
        after.Stands (Segment.tokens rest) → KeepsBorders settings site nested after [] rest) :
      KeepsBorders settings site nested branch [] (.passage environment :: rest)

/-- A run to the end of the input, with the verbatim environments that it passes through. Apart from
them it is never in one. -/
inductive Travels (settings : Settings) (site : Site) (nested : Nested) :
    Branch → (passed : List Node) → (last : Branch) → Prop where
  | finished {branch : Branch} (ahead : branch.stream.tokens = []) :
      Travels settings site nested branch [] branch
  | outside {before after last : Branch} {passed : List Node} (first : before.verbatim = none)
      (reads : Reads settings site nested before after) (second : after.verbatim = none)
      (later : Travels settings site nested after passed last) :
      Travels settings site nested before passed last
  | passage {before after last : Branch} {environment : Node} {rest : List Token}
      {passed : List Node}
      (passes : PassesThrough settings site nested before environment.tokens rest after)
      (later : Travels settings site nested after passed last) :
      Travels settings site nested before (environment :: passed) last

theorem PassesThrough.reads (passes : PassesThrough settings site nested before tokens rest after) :
    Relation.ReflTransGen (Reads settings site nested) before after := by
  obtain ⟨name, opened, opens, -, run⟩ := passes.inside
  exact .head opens (run.lift id fun _ _ read => read.2)

/-- Behind a verbatim environment that is left, a branch is as it was in front of it. -/
theorem PassesThrough.stands (passes : PassesThrough settings site nested before tokens rest after)
    (stood : before.Stands (tokens ++ rest)) (left : after.verbatim = none) :
    after.Stands rest where
  ahead := passes.ahead
  expands := ⟨by rw [passes.same]; exact stood.expands.running, left⟩
  unbound := by rw [passes.same]; exact stood.unbound

/-- **A run that keeps to the borders passes through the verbatim environments of a document,** one
after another, and through nothing else. -/
theorem KeepsBorders.exists_travels
    (keeps : KeepsBorders settings site nested branch pushed segments)
    (fitting : Fitting settings.commands [] segments) :
    ∃ last, Travels settings site nested branch (segments.filterMap Segment.passage?) last := by
  induction keeps with
  | finished ahead => exact ⟨_, .finished ahead⟩
  | pushed stands reads outside split free _ ih =>
    subst split
    obtain ⟨last, travels⟩ := ih fitting.of_append
    rw [List.filterMap_append, List.filterMap_eq_nil_iff.mpr free]
    exact ⟨last, .outside stands.expands.code reads outside travels⟩
  | token stands reads split free later ih =>
    subst split
    cases fitting with
    | cons fits behind =>
      rw [List.append_nil] at fits
      have outside := verbatim_of_reads fits stands reads
      obtain ⟨last, travels⟩ := ih outside behind.of_append
      rw [List.filterMap_cons, List.filterMap_append, List.filterMap_eq_nil_iff.mpr free]
      exact ⟨last, .outside stands.expands.code reads outside travels⟩
  | @passage branch environment rest stands later ih =>
    cases fitting with
    | cons fits behind =>
      rw [List.append_nil] at fits
      rw [Segment.tokens_cons] at stands
      obtain ⟨after, passes⟩ := exists_passesThrough site nested fits stands
      by_cases left : after.verbatim = none
      · obtain ⟨last, travels⟩ := ih after passes.reads (passes.stands stands left) behind
        exact ⟨last, .passage passes travels⟩
      · have finished := passes.leaves.resolve_left left
        obtain rfl : rest = [] := behind.eq_nil finished
        exact ⟨after, .passage passes (.finished (passes.ahead.trans finished))⟩

theorem run_eq_of_reads (reads : Relation.ReflTransGen (Reads settings site nested) before after) :
    run settings site nested before = run settings site nested after := by
  induction reads with
  | refl => rfl
  | tail _ read ih =>
    obtain ⟨token, stream, found, done⟩ := read
    exact ih.trans (run_of_found found done)

/-- A run with the verbatim environments that it passes through is the whole run. -/
theorem Travels.exists_run (travels : Travels settings site nested branch passed last) :
    ∃ stream, run settings site nested branch = .ok { last with stream } := by
  induction travels with
  | @finished branch ahead =>
    rcases found : branch.stream.next with ⟨_ | token, stream⟩
    · exact ⟨stream, run_of_finished found⟩
    · rw [Stream.tokens_next, found] at ahead
      cases ahead
  | outside _ reads _ _ ih => rwa [run_eq_of_reads (.single reads)]
  | passage passes _ ih => rwa [run_eq_of_reads passes.reads]

/-- **An expansion passes through the verbatim environments of a document,** if the document is
legible and the run keeps to the borders of these environments. -/
theorem exists_travels_passages (tokens : List Token) (source : Text) (fileId : FileId)
    (legible : (Document.ofTokens tokens source fileId settings.commands).IsLegible
      settings.commands)
    (keeps : KeepsBorders settings site nested branch []
      ((Document.ofTokens tokens source fileId settings.commands).segments settings.commands)) :
    ∃ last stream, Travels settings site nested branch
        ((Document.ofTokens tokens source fileId settings.commands).passages settings.commands)
        last ∧
      run settings site nested branch = .ok { last with stream } := by
  obtain ⟨last, travels⟩ :=
    keeps.exists_travels (Document.fitting_ofTokens tokens source fileId settings.commands legible)
  exact ⟨last, travels.exists_run.choose, travels, travels.exists_run.choose_spec⟩

/-- A control word with the name `verbatim` behind it. -/
def verbatimLabel (word : Text) : List Token :=
  .ofKind (.controlWord word) :: .ofKind (.beginGroup (.char '\x7b')) ::
    (("verbatim" : Text).map fun glyph =>
      { Token.ofKind (.character glyph .letter) with raw := [glyph] }) ++
    [.ofKind (.endGroup (.char '\x7d'))]

/-- The tokens of `\x\begin{verbatim}\x\end{verbatim}`. -/
def usedTwice : List Token :=
  .ofKind (.controlWord "x") :: verbatimLabel "begin" ++
    .ofKind (.controlWord "x") :: verbatimLabel "end"

/-- A branch that has to read `\x\begin{verbatim}\x\end{verbatim}`, where `\x` is a macro. -/
def usedTwiceStart : Branch where
  stream := .ofTokens usedTwice
  steps := 0
  aborted := false
  verbatim := none
  output := #[]
  inclusions := #[]
  shared := ⟨Scope.empty.define ⟨"x", [], [.ofChar 'y'], false, []⟩,
    .empty noFiles.currentDirectory, #[], []⟩

/-- The document of these tokens. -/
def usedTwiceDocument : Document :=
  .ofTokens usedTwice [] 0 .standard

theorem exists_segments_usedTwice : ∃ placed environment,
    usedTwiceDocument.segments .standard = [.token placed, .passage environment] := by
  have kinds : (usedTwiceDocument.segments .standard).map (·.passage?.isSome) = [false, true] := by
    decide +kernel
  obtain ⟨first, others, segments, outside, left⟩ := List.map_eq_cons_iff.mp kinds
  obtain ⟨second, others, rfl, inside, left⟩ := List.map_eq_cons_iff.mp left
  cases List.map_eq_nil_iff.mp left
  cases first with
  | passage => cases outside
  | token placed =>
    cases second with
    | token => cases inside
    | passage environment => exact ⟨placed, environment, segments⟩

/-- The macro is replaced in front of the environment, and not in it. -/
theorem exists_travels_passages_usedTwice :
    ∃ environment last stream,
      usedTwiceDocument.passages .standard = [environment] ∧
      environment.tokens = usedTwice.tail ∧
      Travels ⟨noFiles, {}, .standard⟩ ⟨0, [0], 0⟩ none usedTwiceStart [environment] last ∧
      run ⟨noFiles, {}, .standard⟩ ⟨0, [0], 0⟩ none usedTwiceStart = .ok { last with stream } := by
  obtain ⟨placed, environment, segments⟩ := exists_segments_usedTwice
  have whole : Segment.tokens [.token placed, .passage environment] = usedTwice := by
    rw [← segments, Document.tokens_segments]
    decide +kernel
  have tail : Segment.tokens [.passage environment] = usedTwice.tail :=
    (List.cons_eq_cons.mp whole).2
  have passages : usedTwiceDocument.passages .standard = [environment] := by
    rw [Document.passages, segments]
    rfl
  have reads : ∃ called written : Branch,
      Reads ⟨noFiles, {}, .standard⟩ ⟨0, [0], 0⟩ none usedTwiceStart called ∧
      Reads ⟨noFiles, {}, .standard⟩ ⟨0, [0], 0⟩ none called written ∧
      called.Stands (.markExpanded (.ofChar 'y') :: usedTwice.tail) ∧
      written.Stands usedTwice.tail :=
    ⟨_, _, ⟨_, _, rfl, rfl⟩, ⟨_, _, rfl, rfl⟩, ⟨rfl, ⟨rfl, rfl⟩, rfl⟩, rfl, ⟨rfl, rfl⟩, rfl⟩
  obtain ⟨called, written, calls, writes, pushed, ahead⟩ := reads
  rw [← tail] at pushed ahead
  have around : KeepsBorders ⟨noFiles, {}, .standard⟩ ⟨0, [0], 0⟩ none written []
      [.passage environment] :=
    .passage ahead fun after _ stands => .finished stands.ahead
  have behind : KeepsBorders ⟨noFiles, {}, .standard⟩ ⟨0, [0], 0⟩ none called
      [.markExpanded (.ofChar 'y')] [.passage environment] :=
    .pushed pushed writes ahead.expands.code (List.nil_append _).symm (by simp) around
  have keeps : KeepsBorders ⟨noFiles, {}, .standard⟩ ⟨0, [0], 0⟩ none usedTwiceStart []
      (usedTwiceDocument.segments .standard) := by
    rw [segments]
    exact .token ⟨whole.symm, ⟨rfl, rfl⟩, rfl⟩ calls (List.nil_append _).symm (by simp)
      fun _ => behind
  obtain ⟨last, stream, travels, ends⟩ := exists_travels_passages usedTwice [] 0
    ⟨by decide +kernel, by decide +kernel⟩ keeps
  refine ⟨environment, last, stream, passages, ?_, passages ▸ travels, ends⟩
  simpa [Segment.placed, Node.tokens] using tail

end Branch

/-- A text in which a macro stands for the `\begin` of a verbatim environment. -/
def aliasedBegin : Text := "\\def\\x\x7by\x7d\\let\\open\\begin\\open\x7bverbatim\x7d\\x"

/-- Its document has no verbatim environment, and its expansion passes one through. -/
theorem verbatim_aliasedBegin :
    ∃ document expanded reports, Document.parse aliasedBegin .standard .standard 0 = .ok document ∧
      (∀ node ∈ document.walk, node.isVerbatim .standard = false) ∧
      Scope.empty.lookup "begin" = none ∧
      (expand defaults document Scope.empty noTable).outcome = .ok (expanded, reports) ∧
      expanded.sourceText = "\\begin\x7bverbatim\x7d\\x" := by
  obtain ⟨document, expanded, reports, parsed, done, passes⟩ :=
    exists_expansion aliasedBegin 20 (fun expanded =>
      decide (expanded.sourceText = "\\begin\x7bverbatim\x7d\\x")) (by decide +kernel)
  have plain : (Document.parse aliasedBegin .standard .standard 0).toOption.all
      (fun document => document.walk.all (!·.isVerbatim .standard)) = true := by
    decide +kernel
  rw [parsed] at plain
  refine ⟨document, expanded, reports, parsed, ?_, rfl, done, of_decide_eq_true passes⟩
  simpa [Except.toOption] using plain

end Expansion

end TexSource
