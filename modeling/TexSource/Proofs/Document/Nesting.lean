import TexSource.Proofs.Document.Productions
import TexSource.Proofs.Document.Ways

/-!
# The number of open levels

The parser goes down the levels by its readers: what is read at a level is given the reader of the
next one. `Counted` is the parser with the number of open levels as a part of its state instead,
which is compared with the limit before a level is opened, and is counted up and down. It builds
the same document (`Counted.agrees_nodesOf`), whatever it reads leaves the number as it was
(`Counted.Agrees`), and the number is never above the limit. So no way down the tree of a document
is long (`Document.boundedNesting_ofTokens`).
-/

namespace TexSource

namespace Parser

/-- The state of the parser with the number of open levels. -/
structure Counting where
  nesting : Nat
  /-- The numbers of levels that were open before, the latest first. -/
  earlier : List Nat
  state : State

/-- Neither are nor were more levels open than may be. -/
def Counting.InBounds (counting : Counting) : Prop :=
  ∀ nesting ∈ counting.nesting :: counting.earlier, nesting ≤ maxNesting

/-- A reader that counts the open levels. -/
abbrev Count := StateM Counting

namespace Counted

section

variable {Result : Type}

/-- A step that neither opens nor closes a level. -/
def step (parse : Parse Result) : Count Result :=
  fun counting => ((parse counting.state).1, { counting with state := (parse counting.state).2 })

/-- Changes the number of open levels. -/
def change (next : Nat → Nat) : Count Unit :=
  modify fun counting =>
    { counting with
      nesting := next counting.nesting
      earlier := counting.nesting :: counting.earlier }

/-- What is read in a level that is opened before and closed behind. -/
def inLevel (read : Count Result) : Count Result := do
  change (· + 1)
  let result ← read
  change (· - 1)
  return result

/-- Whether one more level may be opened. -/
def hasRoom : Count Bool := do
  return (← get).nesting < maxNesting

end

section

variable (context : Context) (read : Closing → Mode → Count (List Node))

/-- Reads a group, and counts its level. -/
def group : Count Node := do
  if ← hasRoom then
    let opener ← step (take context)
    let children ← inLevel (read .never ⟨false, false, true⟩)
    let closer ← step (takeIf context Token.isEndGroup)
    step (finishGroup context .brace opener children closer .unterminatedGroup)
  else
    step (flatGroup context)

/-- Reads a group in brackets, and counts its level. -/
def optionalGroup (mode : Mode) : Count Node := do
  let opener ← step (take context)
  let children ← inLevel (read .bracket mode)
  let closer ← step (takeIf context (Token.isCharacter · ']'))
  step (finishGroup context .bracket opener children closer .unterminatedOptional)

/-- Reads a formula, and counts its level. -/
def math (mode : Mode) : Count Node := do
  let opener ← step (take context)
  let closing := Closing.ofOpener opener.token
  let children ← inLevel (read closing { mode with inMath := true })
  step (splitAhead closing)
  let closer ← step (takeIf context closing.isAt)
  step (finishMath context closing opener children closer)

/-- Reads an argument at the level of its command. -/
def argumentContent (target : Token) : Count Node :=
  if target.isBeginGroup then group context read else step (leaf context)

/-- Reads the arguments of a command at its level. -/
def arguments (mode : Mode) (command : Text) : Nat → List ArgumentKind → Count (List Argument)
  | _, [] => return []
  | position, .optional :: kinds => do
    let skipped := spacesAhead (← step get).rest
    let target ← step (look context skipped)
    if target.isCharacter '[' && (← hasRoom) then
      let leading ← step (leaves context skipped)
      let content ← optionalGroup context read mode
      return ⟨.optional, leading, content⟩ :: (← arguments mode command (position + 1) kinds)
    else
      arguments mode command (position + 1) kinds
  | position, .mandatory :: kinds => do
    let skipped := gapAhead false (← step get).rest
    let target ← step (look context skipped)
    if cannotStartArgument target then
      step (reportMissing context position command target)
      return []
    else
      let leading ← step (leaves context skipped)
      let content ← argumentContent context read target
      return ⟨.mandatory, leading, content⟩ :: (← arguments mode command (position + 1) kinds)

/-- Reads what is behind the name of a command. -/
def commandBehind (mode : Mode) (head : Placed) : Count Command := do
  let name := head.token.value
  let signature := context.commands.command name
  let star ← step (starAhead context signature)
  let arguments ← arguments context read mode name 1 signature.arguments
  let span ← step (spanFrom context head.token.span.start)
  return ⟨← step newId, name, head, star, arguments, span⟩

/-- Reads a command, which opens no level. -/
def command (mode : Mode) : Count Node := do
  let head ← step (take context)
  return .command (← commandBehind context read mode head)

/-- Reads the end of an environment. -/
def ending : Count (Command × Text) := do
  let head ← step (take context)
  let skipped := spacesAhead (← step get).rest
  if (← step (look context skipped)).isBeginGroup then
    let leading ← step (leaves context skipped)
    let nameGroup ← group context read
    let span ← step (spanFrom context head.token.span.start)
    return (⟨← step newId, "end", head, none, [⟨.mandatory, leading, nameGroup⟩], span⟩,
      nameGroup.innerText.strip)
  else
    let span ← step (spanFrom context head.token.span.start)
    return (⟨← step newId, "end", head, none, [], span⟩, [])

/-- Reads an end without its begin. -/
def strayEnding : Count Node := do
  let ended ← ending context read
  step (report (.unmatchedEnd ended.2) ended.1.span ended.1.id)
  return .command ended.1

/-- Reads the end behind a body, if there is one. -/
def endingAhead : Count (Option (Command × Text)) := do
  if (← step (look context 0)).isControlWord "end" then
    return some (← ending context read)
  else
    return none

/-- Reads the begin of an environment with its arguments. -/
def opening (mode : Mode) (head : Placed) (skipped : Nat) : Count (Command × Text) := do
  let leading ← step (leaves context skipped)
  let nameGroup ← group context read
  let name := nameGroup.innerText.strip
  let extra ← arguments context read { mode with inEnvironment := false }
    ("begin" ++ Problem.braced name) 1 (context.commands.environment name).arguments
  let span ← step (spanFrom context head.token.span.start)
  return (⟨← step newId, "begin", head, none, ⟨.mandatory, leading, nameGroup⟩ :: extra, span⟩,
    name)

/-- Reads the body of an environment, one level deeper unless it is verbatim. -/
def environmentBody (mode : Mode) (name : Text) : Count (List Node) :=
  if context.commands.isVerbatim name then step (leavesAhead context (verbatimLength name))
  else inLevel (read .never { mode with inEnvironment := true })

/-- Reads an environment with a name. -/
def namedEnvironment (mode : Mode) (head : Placed) (skipped : Nat) : Count Node := do
  let opened ← opening context read mode head skipped
  let body ← environmentBody context read mode opened.2
  let ending ← endingAhead context read
  step (finishEnvironment context opened.2 opened.1 body ending)

/-- Reads an environment behind its head. -/
def environmentBehind (mode : Mode) (head : Placed) : Count Node := do
  let skipped := spacesAhead (← step get).rest
  if (← step (look context skipped)).isBeginGroup then
    namedEnvironment context read mode head skipped
  else
    let mode := { mode with inEnvironment := false }
    return .command (← commandBehind context read mode head)

/-- Reads an environment with its head. -/
def environment (mode : Mode) : Count Node := do
  environmentBehind context read mode (← step (take context))

/-- Reads the construct that a token starts. -/
def construct (mode : Mode) (token : Token) : Count Node := do
  if token.isBeginGroup then
    group context read
  else if token.isEndGroup then
    step (strayGroupEnd context)
  else if token.isControlWord "end" then
    strayEnding context read
  else if !mode.inMath && opensMath token && (← hasRoom) then
    math context read mode
  else if token.isControlWord "begin" && (← hasRoom) then
    environment context read mode
  else if token.isControlSequence then
    command context read mode
  else
    step (leaf context)

/-- Reads a node. -/
def node (mode : Mode) : Count Node := do
  let token ← step (look context 0)
  if !(← hasRoom) && opensNesting token mode.inMath then
    step (reportNesting token.span)
  construct context read mode token

/-- The nodes up to the closing, after those already read and at most so many. -/
def nodesUntil (closing : Closing) (mode : Mode) : Nat → Array Node → Count (List Node)
  | 0, nodes => return nodes.toList
  | most + 1, nodes => do
    if (← step get).rest.head?.all (endsBefore closing mode) then
      return nodes.toList
    else
      nodesUntil closing mode most (nodes.push (← node context read mode))

end

section

variable (context : Context)

/-- The reader that may go down so many levels. Every node takes a token, so that there are no
more nodes than tokens. -/
def reader : Nat → Closing → Mode → Count (List Node)
  | 0, _, _ => return []
  | levels + 1, closing, mode => do
    nodesUntil context (reader levels) closing mode (weight (← step get).rest) #[]

/-- The reader of what lies below a level. -/
def below (level : Nat) : Closing → Mode → Count (List Node) :=
  reader context (maxNesting - level)

/-- The nodes of a list of tokens without an end of input. No level is open before. -/
def nodesOf (content : List Token) : List Node × Counting :=
  reader context (maxNesting + 1) .never ⟨false, false, false⟩
    ⟨0, [], ⟨#[], content, 0, #[], false⟩⟩

end

section

variable {Result First Second : Type} {level : Nat}

/-- At a nesting level a counting reader comes to what a reader comes to; it leaves the number of
open levels as it was, and never was the number above the limit. -/
structure Agrees (level : Nat) (count : Count Result) (parse : Parse Result) : Prop where
  run : ∀ earlier state, (∀ nesting ∈ earlier, nesting ≤ maxNesting) →
    ∃ later, (∀ nesting ∈ later, nesting ≤ maxNesting) ∧
      count ⟨level, earlier, state⟩ = ((parse state).1, ⟨level, later, (parse state).2⟩)

namespace Agrees

/-- A step that reads no construct agrees with its own count. -/
theorem step (parse : Parse Result) : Agrees level (Counted.step parse) parse :=
  ⟨fun earlier _ low => ⟨earlier, low, rfl⟩⟩

theorem pure (result : Result) : Agrees level (Pure.pure result) (Pure.pure result) :=
  ⟨fun earlier _ low => ⟨earlier, low, rfl⟩⟩

/-- Steps that agree do so one after another. -/
theorem bind {first : Count First} {second : First → Count Second} {parse : Parse First}
    {next : First → Parse Second} (hfirst : Agrees level first parse)
    (hsecond : ∀ result, Agrees level (second result) (next result)) :
    Agrees level (first >>= second) (parse >>= next) := by
  constructor
  intro earlier state low
  obtain ⟨middle, lower, firstRun⟩ := hfirst.run earlier state low
  obtain ⟨later, lowest, secondRun⟩ := (hsecond (parse state).1).run middle (parse state).2 lower
  refine ⟨later, lowest, ?_⟩
  change second (first ⟨level, earlier, state⟩).1 (first ⟨level, earlier, state⟩).2 = _
  rw [firstRun]
  exact secondRun

theorem ite {condition : Prop} [Decidable condition] {count other : Count Result}
    {parse next : Parse Result} (holds : Agrees level count parse)
    (fails : Agrees level other next) :
    Agrees level (if condition then count else other) (if condition then parse else next) := by
  by_cases true : condition
  · rw [if_pos true, if_pos true]
    exact holds
  · rw [if_neg true, if_neg true]
    exact fails

/-- Looking for room changes nothing. -/
theorem ofRoom {next : Bool → Count Result} {parse : Parse Result}
    (agrees : Agrees level (next (level < maxNesting)) parse) :
    Agrees level (hasRoom >>= next) parse :=
  ⟨agrees.run⟩

/-- A level that is opened where there is room is closed again. -/
theorem inLevel {count : Count Result} {parse : Parse Result} (room : level < maxNesting)
    (agrees : Agrees (level + 1) count parse) : Agrees level (inLevel count) parse := by
  constructor
  intro earlier state low
  have opened : ∀ nesting ∈ level :: earlier, nesting ≤ maxNesting :=
    List.forall_mem_cons.mpr ⟨Nat.le_of_lt room, low⟩
  obtain ⟨later, lower, run⟩ := agrees.run (level :: earlier) state opened
  refine ⟨(level + 1) :: later, List.forall_mem_cons.mpr ⟨room, lower⟩, ?_⟩
  change ((count ⟨level + 1, level :: earlier, state⟩).1,
    (change (· - 1) (count ⟨level + 1, level :: earlier, state⟩).2).2) = _
  rw [run]
  rfl

end Agrees

/-- A counting reader agrees with the reader of the next level. -/
def AgreesInside (level : Nat) (read : Closing → Mode → Count (List Node)) (nested : Nested) :
    Prop :=
  ∀ closing mode, Agrees (level + 1) (read closing mode) (nested.read closing mode)

/-- There is a next level exactly where there is room, and a counting reader agrees with its
reader. -/
def AgreesBelow (level : Nat) (read : Closing → Mode → Count (List Node)) (inner : Inner) : Prop :=
  match inner with
  | none => level = maxNesting
  | some nested => level < maxNesting ∧ AgreesInside level read nested

/-- Looking for room and looking for the reader of the next level come to the same. -/
theorem Agrees.whenRoom {read : Closing → Mode → Count (List Node)} {inner : Inner}
    (below : AgreesBelow level read inner) {opens : Bool} {count other : Count Result}
    {parse : Parse Result}
    (within : ∀ nested, inner.when opens = some nested → level < maxNesting →
      AgreesInside level read nested → Agrees level count parse)
    (flat : inner.when opens = none → Agrees level other parse) :
    Agrees level (do if opens && (← hasRoom) then count else other) parse := by
  apply ofRoom
  cases inner with
  | none =>
    have deepest : level = maxNesting := below
    have absent : Inner.when none opens = none := by cases opens <;> rfl
    rw [if_neg (by simp [deepest])]
    exact flat absent
  | some nested =>
    obtain ⟨room, inside⟩ := below
    cases opens with
    | true =>
      rw [if_pos (by simp [room])]
      exact within nested rfl room inside
    | false => exact flat rfl

end

section

variable {context : Context} {level : Nat} {read : Closing → Mode → Count (List Node)}
  {inner : Inner} {nested : Nested}

/-- A group that is read with a count is the one that is read without. -/
theorem agrees_group (below : AgreesBelow level read inner) :
    Agrees level (group context read) (Parser.group context inner) := by
  apply Agrees.ofRoom
  cases inner with
  | none =>
    have full : ¬level < maxNesting := Nat.not_lt.mpr (Nat.le_of_eq (Eq.symm below))
    rw [if_neg (by simpa using full)]
    exact .step _
  | some nested =>
    obtain ⟨room, inside⟩ := below
    rw [if_pos (by simpa using room)]
    exact .bind (.step _) fun _ => .bind (.inLevel room (inside ..)) fun _ =>
      .bind (.step _) fun _ => .step _

/-- A group in brackets that is read with a count is the one that is read without. -/
theorem agrees_optionalGroup (room : level < maxNesting)
    (inside : AgreesInside level read nested) (mode : Mode) :
    Agrees level (optionalGroup context read mode) (Parser.optionalGroup context nested mode) :=
  .bind (.step _) fun _ => .bind (.inLevel room (inside ..)) fun _ =>
    .bind (.step _) fun _ => .step _

/-- A formula that is read with a count is the one that is read without. -/
theorem agrees_math (room : level < maxNesting) (inside : AgreesInside level read nested)
    (mode : Mode) : Agrees level (math context read mode) (Parser.math context nested mode) := by
  refine .bind (.step _) fun opener => ?_
  have content := Agrees.inLevel room
    (inside (.ofOpener opener.token) { mode with inMath := true })
  exact content.bind fun children => .bind (.step _) fun _ => .bind (.step _) fun _ => .step _

theorem agrees_argumentContent (below : AgreesBelow level read inner) (target : Token) :
    Agrees level (argumentContent context read target)
      (Parser.argumentContent context inner target) :=
  .ite (agrees_group below) (.step _)

/-- Arguments that are read with a count are those that are read without. -/
theorem agrees_arguments (below : AgreesBelow level read inner) (mode : Mode) (command : Text)
    (position : Nat) (kinds : List ArgumentKind) :
    Agrees level (arguments context read mode command position kinds)
      (Parser.arguments context inner mode command position kinds) := by
  induction kinds generalizing position with
  | nil => exact .pure _
  | cons kind kinds ih =>
    cases kind with
    | optional =>
      refine .bind (.step _) fun state => .bind (.step _) fun target => ?_
      refine .whenRoom below (fun nested present room inside => ?_) fun absent => ?_
      · rw [present]
        exact .bind (.step _) fun _ => .bind (agrees_optionalGroup room inside mode) fun _ =>
          .bind (ih _) fun _ => .pure _
      · rw [absent]
        exact ih _
    | mandatory =>
      refine .bind (.step _) fun state => .bind (.step _) fun target => .ite ?_ ?_
      · exact .bind (.step _) fun _ => .pure _
      · exact .bind (.step _) fun _ => .bind (agrees_argumentContent below target) fun _ =>
          .bind (ih _) fun _ => .pure _

theorem agrees_commandBehind (below : AgreesBelow level read inner) (mode : Mode)
    (head : Placed) :
    Agrees level (commandBehind context read mode head)
      (Parser.commandBehind context inner mode head) :=
  .bind (.step _) fun _ => .bind (agrees_arguments below ..) fun _ => .bind (.step _) fun _ =>
    .bind (.step _) fun _ => .pure _

theorem agrees_command (below : AgreesBelow level read inner) (mode : Mode) :
    Agrees level (command context read mode) (Parser.command context inner mode) :=
  .bind (.step _) fun head => .bind (agrees_commandBehind below mode head) fun _ => .pure _

theorem agrees_ending (below : AgreesBelow level read inner) :
    Agrees level (ending context read) (Parser.ending context inner) := by
  refine .bind (.step _) fun head => .bind (.step _) fun state => .bind (.step _) fun target =>
    .ite ?_ ?_
  · exact .bind (.step _) fun _ => .bind (agrees_group below) fun _ => .bind (.step _) fun _ =>
      .bind (.step _) fun _ => .pure _
  · exact .bind (.step _) fun _ => .bind (.step _) fun _ => .pure _

theorem agrees_strayEnding (below : AgreesBelow level read inner) :
    Agrees level (strayEnding context read) (Parser.strayEnding context inner) :=
  .bind (agrees_ending below) fun _ => .bind (.step _) fun _ => .pure _

theorem agrees_endingAhead (below : AgreesBelow level read inner) :
    Agrees level (endingAhead context read) (Parser.endingAhead context inner) :=
  .bind (.step _) fun _ => .ite (.bind (agrees_ending below) fun _ => .pure _) (.pure _)

theorem agrees_opening (room : level < maxNesting) (inside : AgreesInside level read nested)
    (mode : Mode) (head : Placed) (skipped : Nat) :
    Agrees level (opening context read mode head skipped)
      (Parser.opening context nested mode head skipped) := by
  have below : AgreesBelow level read (some nested) := ⟨room, inside⟩
  exact .bind (.step _) fun _ => .bind (agrees_group below) fun _ =>
    .bind (agrees_arguments below ..) fun _ => .bind (.step _) fun _ => .bind (.step _) fun _ =>
      .pure _

theorem agrees_environmentBody (room : level < maxNesting)
    (inside : AgreesInside level read nested) (mode : Mode) (name : Text) :
    Agrees level (environmentBody context read mode name)
      (Parser.environmentBody context nested mode name) :=
  .ite (.step _) (.inLevel room (inside ..))

/-- An environment that is read with a count is the one that is read without. -/
theorem agrees_environment (room : level < maxNesting) (inside : AgreesInside level read nested)
    (mode : Mode) :
    Agrees level (environment context read mode) (Parser.environment context nested mode) := by
  have below : AgreesBelow level read (some nested) := ⟨room, inside⟩
  refine .bind (.step _) fun head => .bind (.step _) fun state => .bind (.step _) fun target =>
    .ite ?_ ?_
  · exact .bind (agrees_opening room inside ..) fun _ =>
      .bind (agrees_environmentBody room inside ..) fun _ =>
        .bind (agrees_endingAhead below) fun _ => .step _
  · exact .bind (agrees_commandBehind below ..) fun _ => .pure _

/-- A construct that is read with a count is the one that is read without. -/
theorem agrees_construct (below : AgreesBelow level read inner) (mode : Mode) (token : Token) :
    Agrees level (construct context read mode token)
      (Parser.construct context inner mode token) := by
  refine .ite (agrees_group below) (.ite (.step _) (.ite (agrees_strayEnding below) ?_))
  refine .whenRoom below (fun nested formula room inside => ?_) fun noFormula => ?_
  · rw [formula]
    exact agrees_math room inside mode
  · rw [noFormula]
    refine .whenRoom below (fun nested region room inside => ?_) fun noRegion => ?_
    · rw [region]
      exact agrees_environment room inside mode
    · rw [noRegion]
      exact .ite (agrees_command below mode) (.step _)

theorem agrees_node (below : AgreesBelow level read inner) (mode : Mode) :
    Agrees level (node context read mode) (Parser.node context inner mode) := by
  refine .bind (.step _) fun token => ?_
  have rest : Agrees level (construct context read mode token)
      (Parser.construct context inner mode token) := agrees_construct below mode token
  have full : inner.isNone = !decide (level < maxNesting) := by
    cases inner with
    | none =>
      have deepest : level = maxNesting := below
      simp [deepest]
    | some nested => simp [below.1]
  apply Agrees.ofRoom
  unfold reportUnopened
  rw [full]
  by_cases reported : (!decide (level < maxNesting) && opensNesting token mode.inMath) = true
  · rw [if_pos reported, if_pos reported]
    exact .bind (.step _) fun _ => rest
  · rw [if_neg reported, if_neg reported]
    exact rest

/-- The nodes of a level. The induction is on how many there may be at most: every node takes
from the weight of what is ahead. -/
theorem nodesUntil_agrees (below : AgreesBelow level read inner) (closing : Closing) (mode : Mode)
    {most : Nat} (nodes : Array Node) {state : State} (enough : weight state.rest ≤ most)
    {earlier : List Nat} (low : ∀ nesting ∈ earlier, nesting ≤ maxNesting) :
    ∃ later, (∀ nesting ∈ later, nesting ≤ maxNesting) ∧
      nodesUntil context read closing mode most nodes ⟨level, earlier, state⟩ =
        ((Parser.nodesUntil context inner closing mode nodes state).1,
          ⟨level, later, (Parser.nodesUntil context inner closing mode nodes state).2⟩) := by
  induction most generalizing nodes state earlier with
  | zero =>
    have none : state.rest = [] := by
      cases ahead : state.rest with
      | nil => rfl
      | cons token rest =>
        rw [ahead, weight_cons] at enough
        split at enough <;> omega
    have halts : Halts closing mode state.rest := by simp [Halts, none]
    rw [nodesUntil_of_halts nodes halts]
    exact ⟨earlier, low, rfl⟩
  | succ most ih =>
    have unfolded : nodesUntil context read closing mode (most + 1) nodes =
      fun counting => (if counting.state.rest.head?.all (endsBefore closing mode) then
          pure nodes.toList
        else
          node context read mode >>= fun first =>
            nodesUntil context read closing mode most (nodes.push first)) counting := rfl
    rw [unfolded]
    dsimp only
    by_cases halts : state.rest.head?.all (endsBefore closing mode) = true
    · have stops : Halts closing mode state.rest := by simpa [Halts, Option.all_eq_true] using halts
      rw [if_pos halts, nodesUntil_of_halts nodes stops]
      exact ⟨earlier, low, rfl⟩
    · rw [if_neg halts]
      obtain ⟨token, rest, ahead⟩ : ∃ token rest, state.rest = token :: rest := by
        apply List.exists_cons_of_ne_nil
        intro none
        simp [none] at halts
      rw [nodesUntil_of_continues nodes ahead (by simpa [ahead] using halts)]
      have taken := (advances_node context inner mode).weight_lt state (by simp [ahead])
      obtain ⟨middle, lower, first⟩ := (agrees_node below mode).run earlier state low
      obtain ⟨later, lowest, others⟩ := ih (nodes.push (Parser.node context inner mode state).1)
        (Nat.le_of_lt_succ (Nat.lt_of_lt_of_le taken enough)) lower
      refine ⟨later, lowest, Eq.trans ?_ others⟩
      change (fun taken : Node × Counting => nodesUntil context read closing mode most
        (nodes.push taken.1) taken.2) (node context read mode ⟨level, earlier, state⟩) = _
      rw [first]

/-- Nodes that are read with a count are those that are read without. -/
theorem agrees_nodesUntil (below : AgreesBelow level read inner) (closing : Closing)
    (mode : Mode) :
    Agrees level (do nodesUntil context read closing mode (weight (← step get).rest) #[])
      (Parser.nodesUntil context inner closing mode #[]) :=
  ⟨fun _ _ low => nodesUntil_agrees below closing mode #[] (Nat.le_refl _) low⟩

end

section

variable {Result : Type} (context : Context)

/-- The reader of a level and the counting reader that may go down as far agree. -/
theorem agrees_reader {level room : Nat} (whole : level + room = maxNesting) (closing : Closing)
    (mode : Mode) :
    Agrees level (reader context (room + 1) closing mode)
      ((Parser.level context room).read closing mode) := by
  induction room generalizing level closing mode with
  | zero =>
    have below : AgreesBelow level (reader context 0) none := whole
    exact agrees_nodesUntil below closing mode
  | succ room ih =>
    have below : AgreesBelow level (reader context (room + 1)) (some (Parser.level context room)) :=
      ⟨by omega, fun closing mode => ih (by omega) closing mode⟩
    exact agrees_nodesUntil below closing mode

/-- Where there is room, reading the level below with a count agrees with a level of the parser. -/
theorem exists_agreesInside {level : Nat} (room : level < maxNesting) :
    ∃ nested, AgreesInside level (below context level) nested := by
  obtain ⟨less, whole⟩ : ∃ less, maxNesting = level + 1 + less := Nat.exists_eq_add_of_le room
  refine ⟨Parser.level context less, fun closing mode => ?_⟩
  rw [below, whole, Nat.add_assoc, Nat.add_sub_cancel_left, Nat.add_comm 1 less]
  exact agrees_reader context whole.symm closing mode

/-- At every level up to the limit the parser reads with some reader of the next one. -/
theorem exists_agreesBelow {level : Nat} (low : level ≤ maxNesting) :
    ∃ inner, AgreesBelow level (below context level) inner := by
  by_cases deepest : level = maxNesting
  · exact ⟨none, deepest⟩
  · have room : level < maxNesting := Nat.lt_of_le_of_ne low deepest
    obtain ⟨nested, inside⟩ := exists_agreesInside context room
    exact ⟨some nested, room, inside⟩

/-- At a nesting level a counting reader keeps the number of open levels in its bounds, and
brings it back to what it was. -/
def Restores (level : Nat) (count : Count Result) : Prop :=
  ∀ counting : Counting, counting.nesting = level → counting.InBounds →
    (count counting).2.nesting = level ∧ (count counting).2.InBounds

/-- A version that counts gives the counter its old value back. -/
theorem Agrees.restores {level : Nat} {count : Count Result} {parse : Parse Result}
    (agrees : Agrees level count parse) : Restores level count := by
  rintro ⟨nesting, earlier, state⟩ rfl bounds
  obtain ⟨low, lower⟩ := List.forall_mem_cons.mp bounds
  obtain ⟨later, lowest, run⟩ := agrees.run earlier state lower
  rw [run]
  exact ⟨rfl, List.forall_mem_cons.mpr ⟨low, lowest⟩⟩

/-- Whatever construct is read at a level brings the number of open levels back. -/
theorem restores_construct {level : Nat} (low : level ≤ maxNesting) (mode : Mode) (token : Token) :
    Restores level (construct context (below context level) mode token) := by
  obtain ⟨inner, agrees⟩ := exists_agreesBelow context low
  exact (agrees_construct agrees mode token).restores

/-- Optional arguments are read where there is room for a level. -/
theorem restores_optionalGroup {level : Nat} (room : level < maxNesting) (mode : Mode) :
    Restores level (optionalGroup context (below context level) mode) := by
  obtain ⟨nested, inside⟩ := exists_agreesInside context room
  exact (agrees_optionalGroup room inside mode).restores

/-- The counting parser builds what the parser builds, and no level is open behind it. -/
theorem nodesOf_eq (content : List Token) :
    ∃ earlier, (∀ nesting ∈ earlier, nesting ≤ maxNesting) ∧
      nodesOf context content =
        ((Parser.nodesOf context content).1, ⟨0, earlier, (Parser.nodesOf context content).2⟩) :=
  (agrees_reader context (Nat.zero_add maxNesting) .never ⟨false, false, false⟩).run []
    ⟨#[], content, 0, #[], false⟩ (by simp)

end

end Counted

end Parser

namespace Document

/-- The levels of a document that is built from tokens are bounded. -/
structure BoundedNesting (context : Parser.Context) (content : List Token)
    (document : Document) : Prop where
  /-- The parser that counts the open levels builds the document. -/
  children : (Parser.Counted.nodesOf context content).1 = document.root.children
  tokens : (Parser.Counted.nodesOf context content).2.state.taken.toList ++ [context.endOfInput] =
    document.tokens
  diagnostics :
    (Parser.Counted.nodesOf context content).2.state.diagnostics.toList = document.diagnostics
  /-- The number of open levels never exceeds the limit, -/
  bounds : (Parser.Counted.nodesOf context content).2.InBounds
  closed : (Parser.Counted.nodesOf context content).2.nesting = 0
  /-- and every construct at every level brings it back to what it was. -/
  constructs : ∀ level ≤ Parser.maxNesting, ∀ mode token, Parser.Counted.Restores level
    (Parser.Counted.construct context (Parser.Counted.below context level) mode token)
  optionals : ∀ level < Parser.maxNesting, ∀ mode, Parser.Counted.Restores level
    (Parser.Counted.optionalGroup context (Parser.Counted.below context level) mode)
  /-- No way down from the root is longer than the levels allow for. -/
  ways : ∀ way : List Node, way.head? = some document.root → Node.IsWay way →
    way.length ≤ 3 * Parser.maxNesting + 4

/-- **Bounded nesting.** Whatever the tokens and the commands are, the levels of the document that
is built are bounded: a level adds at most three nodes to a way down, and the root is one. -/
theorem boundedNesting_ofTokens (tokens : List Token) (source : Text) (fileId : FileId)
    (commands : CommandTable) :
    BoundedNesting ⟨fileId, commands, endOf tokens fileId⟩ (contentOf tokens)
      (ofTokens tokens source fileId commands) := by
  obtain ⟨earlier, low, counted⟩ :=
    Parser.Counted.nodesOf_eq ⟨fileId, commands, endOf tokens fileId⟩ (contentOf tokens)
  constructor
  case children =>
    rw [counted]
    rfl
  case tokens =>
    rw [counted]
    rfl
  case diagnostics =>
    rw [counted]
    rfl
  case bounds =>
    rw [counted]
    exact List.forall_mem_cons.mpr ⟨Nat.zero_le _, low⟩
  case closed => rw [counted]
  case constructs => exact fun level low => Parser.Counted.restores_construct _ low
  case optionals => exact fun level room => Parser.Counted.restores_optionalGroup _ room
  case ways =>
    intro way starts descends
    obtain ⟨children, reports, derived⟩ := derived_ofTokens tokens source fileId commands
    obtain ⟨span, root⟩ := derived.root
    have low : heightAll children ≤ 3 * (Parser.maxNesting - 0) + 3 := derived.reads.low
    have height : (ofTokens tokens source fileId commands).root.height =
        heightAll children + 1 := by
      rw [root, Node.height]
    have shorter := descends.length_le starts
    omega

end Document

end TexSource
