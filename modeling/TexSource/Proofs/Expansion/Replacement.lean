import TexSource.Proofs.Expansion.Identity
import TexSource.Proofs.Expansion.Matching

/-!
# Definition and use of a macro

A definition with a parameter text leaves nothing in the output. From then on, as long as its
meaning stands, a use of the macro is replaced by the body of the definition with the arguments
filled in (`Macro.Filled`): this is read next, and behind it what stands behind the last argument.
-/

namespace TexSource

theorem Token.isBeginGroup_of_isParameter {token : Token} (isMark : token.isParameter = true) :
    token.isBeginGroup = false := by
  unfold Token.isParameter at isMark
  cases kind : token.kind <;> simp_all [Token.isBeginGroup]

namespace Macro

/-- A body with arguments filled in, from left to right: a parameter character with the number of
an argument stands for that argument, a doubled one for a single one. -/
inductive Filled (arguments : List (List Token)) : (body filled : List Token) → Prop where
  | nil : Filled arguments [] []
  | argument {mark digit : Token} {number : Nat} {argument body filled : List Token}
      (isMark : mark.isParameter = true) (isNumber : digit.parameterNumber? = some number)
      (found : arguments[number - 1]? = some argument) (later : Filled arguments body filled) :
      Filled arguments (mark :: digit :: body) (argument ++ filled)
  | doubled {mark second : Token} {body filled : List Token} (isMark : mark.isParameter = true)
      (isSecond : second.isParameter = true) (later : Filled arguments body filled) :
      Filled arguments (mark :: second :: body) (second.markExpanded :: filled)
  | other {token : Token} {body filled : List Token}
      (other : token.isParameter = false ∨ ∀ next ∈ body.head?, next.isParameter = false ∧
        ∀ number, next.parameterNumber? = some number → arguments[number - 1]? = none)
      (later : Filled arguments body filled) :
      Filled arguments (token :: body) (token.markExpanded :: filled)

variable {arguments : List (List Token)}

/-- An argument is found by the number of its digit. -/
theorem argument?_eq_some_iff {digit : Token} {argument : List Token} :
    argument? arguments digit = some argument ↔
      ∃ number, digit.parameterNumber? = some number ∧ arguments[number - 1]? = some argument :=
  Option.bind_eq_some_iff

/-- No argument is found without a number or behind the last one. -/
theorem argument?_eq_none_iff {digit : Token} :
    argument? arguments digit = none ↔
      ∀ number, digit.parameterNumber? = some number → arguments[number - 1]? = none :=
  Option.bind_eq_none_iff

/-- Substitution fills every place of the body. -/
theorem filled_substitute (body : List Token) :
    Filled arguments body (substitute arguments body) := by
  fun_induction substitute arguments body with
  | case1 => exact .nil
  | case2 token => exact .other (.inr fun _ same => by cases same) .nil
  | case3 token next rest isMark isSecond ih => exact .doubled isMark isSecond ih
  | case4 token next rest isMark _ argument found ih =>
    obtain ⟨number, isNumber, found⟩ := argument?_eq_some_iff.mp found
    exact .argument isMark isNumber found ih
  | case5 token next rest isMark single none ih =>
    refine .other (.inr fun other same => ?_) ih
    obtain rfl := Option.some_inj.mp same
    exact ⟨Bool.eq_false_iff.mpr single, argument?_eq_none_iff.mp none⟩
  | case6 token next rest plain ih => exact .other (.inl (Bool.eq_false_iff.mpr plain)) ih

/-- **A body is filled in in one way.** -/
theorem filled_iff {body filled : List Token} :
    Filled arguments body filled ↔ filled = substitute arguments body := by
  refine ⟨fun fills => ?_, fun same => same ▸ filled_substitute body⟩
  induction fills with
  | nil => rfl
  | @argument mark digit number argument body filled isMark isNumber found _ ih =>
    have single : digit.isParameter = false := by
      unfold Token.parameterNumber? at isNumber
      cases kind : digit.kind <;> simp_all [Token.isParameter]
    rw [substitute, if_pos isMark, if_neg (by simp [single]),
      argument?_eq_some_iff.mpr ⟨number, isNumber, found⟩, ih]
  | doubled isMark isSecond _ ih => rw [substitute, if_pos isMark, if_pos isSecond, ih]
  | @other token body filled other _ ih =>
    rw [ih]
    cases body with
    | nil => rfl
    | cons next rest =>
      rcases other with plain | other
      · simp [substitute, plain]
      · obtain ⟨single, none⟩ := other next rfl
        simp [substitute, single, argument?_eq_none_iff.mpr none]

/-- A parameter in the parameter text of a definition, with its delimiter, which is empty if
nothing stands behind the number. -/
structure Slot where
  mark : Token
  digit : Token
  stop : List Token
  isMark : mark.isParameter = true
  plain : ∀ token ∈ stop, token.isBrace = false ∧ token.isParameter = false

/-- The tokens of a slot. -/
def Slot.tokens (slot : Slot) : List Token :=
  slot.mark :: slot.digit :: slot.stop

/-- The parameter text of a definition: tokens that must follow the name, and numbered
parameters. -/
structure ParameterText where
  literal : List Token
  slots : List Slot
  plain : ∀ token ∈ literal, token.isBrace = false ∧ token.isParameter = false
  numbered : slots.map (·.digit.parameterNumber?) = (List.range' 1 slots.length).map some

/-- The tokens of a parameter text. -/
def ParameterText.tokens (text : ParameterText) : List Token :=
  text.literal ++ text.slots.flatMap Slot.tokens

/-- What the arguments end before. -/
def ParameterText.stops (text : ParameterText) : List (List Token) :=
  text.slots.map Slot.stop

/-- The macro that a definition with a parameter text gives a meaning. -/
def ParameterText.toMacro (text : ParameterText) (name : Text) (body : List Token)
    (isGlobal : Bool) : Macro :=
  ⟨name, text.stops.map parameterBefore, body, isGlobal, text.literal⟩

/-- Tokens without a mark stand before the first parameter. -/
theorem splitParameterText_plain {tokens : List Token} (rest : List Token)
    (plain : ∀ token ∈ tokens, token.isParameter = false) :
    splitParameterText (tokens ++ rest) =
      (tokens ++ (splitParameterText rest).1, (splitParameterText rest).2) := by
  induction tokens with
  | nil => rfl
  | cons token tokens ih =>
    rw [List.forall_mem_cons] at plain
    rw [List.cons_append, List.cons_append]
    cases behind : tokens ++ rest with
    | nil =>
      obtain ⟨rfl, rfl⟩ := List.append_eq_nil_iff.mp behind
      simp [splitParameterText, plain.1]
    | cons next others =>
      rw [splitParameterText, if_neg (by simp [plain.1]), ← behind, ih plain.2]

/-- A parameter text is split at its slots. -/
theorem splitParameterText_slots {slots : List Slot} {last : List Token}
    (digits : ∀ slot ∈ slots, slot.digit.parameterNumber?.isSome = true)
    (ends : splitParameterText last = ([], [])) :
    splitParameterText (slots.flatMap Slot.tokens ++ last) = ([], slots.map Slot.stop) := by
  induction slots with
  | nil => exact ends
  | cons slot slots ih =>
    rw [List.forall_mem_cons] at digits
    rw [List.flatMap_cons, Slot.tokens, List.cons_append, List.cons_append, List.cons_append,
      List.cons_append, splitParameterText, if_pos (by simp [slot.isMark, digits.1]),
      List.append_assoc, splitParameterText_plain _ fun token member => (slot.plain token member).2,
      ih digits.2]
    simp

namespace ParameterText

variable (text : ParameterText)

/-- Every slot has a number. -/
theorem isSome_parameterNumber? :
    ∀ slot ∈ text.slots, slot.digit.parameterNumber?.isSome = true := by
  intro slot member
  have numbered := List.mem_map_of_mem (f := (·.digit.parameterNumber?)) member
  rw [text.numbered] at numbered
  obtain ⟨number, -, same⟩ := List.mem_map.mp numbered
  rw [← same]
  rfl

/-- The parameter text of a definition is read as it was written, and what stands behind it and
holds no parameter makes no difference. -/
theorem ofParameterText_append (last : List Token) (ends : splitParameterText last = ([], []))
    (name : Text) (body : List Token) (isGlobal : Bool) :
    ofParameterText name (text.tokens ++ last) body isGlobal = text.toMacro name body isGlobal := by
  rw [ofParameterText, tokens, List.append_assoc,
    splitParameterText_plain _ fun token member => (text.plain token member).2,
    splitParameterText_slots text.isSome_parameterNumber? ends, List.append_nil]
  rfl

/-- A parameter text is read as the parameters that it spells. -/
theorem ofParameterText_tokens (name : Text) (body : List Token) (isGlobal : Bool) :
    ofParameterText name text.tokens body isGlobal = text.toMacro name body isGlobal := by
  simpa using text.ofParameterText_append [] rfl name body isGlobal

/-- No delimiter has a brace. -/
theorem isBrace_of_mem_stops : ∀ stop ∈ text.stops, ∀ token ∈ stop, token.isBrace = false := by
  intro stop member token inStop
  obtain ⟨slot, _, rfl⟩ := List.mem_map.mp member
  exact (slot.plain token inStop).1

/-- No token of a parameter text opens a group. -/
theorem isBeginGroup_of_mem : ∀ token ∈ text.tokens, token.isBeginGroup = false := by
  intro token member
  rcases List.mem_append.mp member with inLiteral | inSlots
  · exact (Token.isBrace_eq_false_iff.mp (text.plain token inLiteral).1).1
  obtain ⟨slot, isSlot, inSlot⟩ := List.mem_flatMap.mp inSlots
  rcases List.mem_cons.mp inSlot with rfl | inSlot
  · exact Token.isBeginGroup_of_isParameter slot.isMark
  rcases List.mem_cons.mp inSlot with rfl | inStop
  · have digit := text.isSome_parameterNumber? slot isSlot
    unfold Token.parameterNumber? at digit
    cases kind : slot.digit.kind <;> simp_all [Token.isBeginGroup]
  · exact (Token.isBrace_eq_false_iff.mp (slot.plain token inStop).1).1

end ParameterText

end Macro

/-- A token of a kind, wherever it stands. -/
def Token.ofKind (kind : Kind) : Token :=
  { kind, raw := [], span := default }

/-- A character that stands for itself. -/
def Token.ofChar (character : Char) : Token :=
  ofKind (.character (.char character) .other)

/-- A macro that has just been defined is what its name means. -/
theorem Scope.lookup_define (scope : Scope) (definition : Macro) :
    (scope.define definition).lookup definition.name = some definition := by
  unfold Scope.define
  split
  · have hidden : (scope.inner.map fun layer => layer.erase definition.name).findSome?
        (fun layer => layer.get? definition.name) = none := by
      simp [Bindings.get?, Bindings.erase]
    rw [Layered.assignGlobally, Layered.lookup, Layered.layers, List.findSome?_append, hidden]
    simp [Bindings.get?, Bindings.insert]
  · unfold Layered.assignLocally
    split <;> simp [Layered.lookup, Layered.layers, Bindings.get?, Bindings.insert, *]

namespace Expansion

namespace Scan

/-- A definition is read to the brace that ends its body. -/
theorem consumes_definition {gap : List Token} {name opener closer : Token}
    {parameterText body : List Token} (skipped : ∀ token ∈ gap, isSkipped false token = true)
    (definable : name.isDefinable = true)
    (unopened : ∀ token ∈ parameterText, token.isBeginGroup = false)
    (opens : opener.isBeginGroup = true) (balanced : Token.Balanced body)
    (closes : closer.isEndGroup = true) (isGlobal : Bool) (rest : List Token) :
    Consumes (definition isGlobal)
      ((gap ++ [name]) ++ (parameterText ++ opener :: (body ++ [closer]))) rest
      (some (Macro.ofParameterText name.macroName parameterText body isGlobal)) := by
  refine (consumes_pastSkipped skipped (isSkipped_of_isDefinable definable false) _).bind ?_
  dsimp only
  rw [if_pos definable]
  refine .readUntil (goes_of_forall unopened) (Prod.ext rfl opens) fun _ => ?_
  simp only [Option.isSome_some, if_true]
  refine .readUntil (goes_groupTest balanced) (groupTest_endGroup closes) fun _ => ?_
  simp only [Option.isNone_some, Bool.false_eq_true, if_false]
  exact .pure _ _

end Scan

namespace Branch

variable {settings : Settings} {site : Site} {nested : Nested}

/-- A scan that finds what it looks for leaves a branch behind it. -/
theorem attempt_of_consumes {Result : Type} {scan : Scan Result} {tokens rest : List Token}
    {result : Result} (consumes : Scan.Consumes scan tokens rest result) (branch : Branch)
    (ahead : branch.stream.tokens = tokens ++ rest) :
    ∃ stream : Stream, stream.tokens = rest ∧
      branch.attempt scan = (result, tokens, { branch with stream }) := by
  obtain ⟨stream, left, done⟩ := consumes ⟨branch.stream, [], #[]⟩ ahead
  refine ⟨stream, left, ?_⟩
  simp [attempt, done]

/-- The next token is the first of the stream. -/
theorem exists_next {stream : Stream} {token : Token} {rest : List Token}
    (ahead : stream.tokens = token :: rest) :
    ∃ later, stream.next = (some token, later) ∧ later.tokens = rest := by
  have goes : Goes (fun (_ : Unit) (_ : Token) => ((), true)) () [] () := .nil ()
  obtain ⟨later, left, read⟩ := Stream.readUntil_of_goes goes rfl ahead
  exact ⟨later, by rw [Stream.next, read], left⟩

/-- A branch deals with the tokens it reads: not too many macros were called, and it is in no
verbatim environment. -/
structure Expands (branch : Branch) : Prop where
  running : branch.aborted = false
  code : branch.verbatim = none

/-- One more macro can be called at the next token. -/
def MayCall (limits : Limits) (branch : Branch) : Prop :=
  ∃ maxSteps maxDepth, limits.maxSteps = some maxSteps ∧ limits.maxDepth = some maxDepth ∧
    branch.steps < maxSteps ∧ branch.stream.next.2.calls.length < maxDepth

/-- A branch that may call is admitted. -/
theorem MayCall.admission {limits : Limits} {branch : Branch} (mayCall : branch.MayCall limits) :
    Branch.admission limits { branch with stream := branch.stream.next.2 } = some .admitted := by
  obtain ⟨maxSteps, maxDepth, steps, depth, fewer, shallow⟩ := mayCall
  simp only [Branch.admission, steps, depth]
  rw [if_neg (by omega), if_neg (by omega)]

variable {before : Branch}

/-- A token with a meaning is invoked. -/
theorem step_of_meaning {use : Token} {definition : Macro} (expands : before.Expands)
    (meaning : before.meaning? use = some definition) :
    step settings site nested before use = before.invoke settings.limits use definition := by
  simp [step, expands.running, expands.code, meaning]

/-- A control word without a meaning is obeyed. -/
theorem step_of_word {token : Token} {word : Text} (expands : before.Expands)
    (isWord : token.kind = .controlWord word)
    (unbound : before.shared.scope.lookup word = none) :
    step settings site nested before token = before.obey settings site nested token word := by
  have meaning : before.meaning? token = none := by
    simp [meaning?, Token.isDefinable, Token.macroName, Token.value, Token.Kind.value, isWord,
      unbound]
  simp [step, expands.running, expands.code, meaning, isWord]

/-- A definer reads its definition. -/
theorem obey_of_definer {definer : Token} {word : Text} {isGlobal : Bool}
    (defines : Scan.definer? word = some isGlobal) :
    before.obey settings site nested definer word =
      .ok (before.defineBy definer (Scan.definition isGlobal)) := by
  have noMark : Scan.isDefinitionMark word = false := by
    unfold Scan.definer? at defines
    by_contra mark
    simp only [Scan.isDefinitionMark, Bool.not_eq_false, Bool.or_eq_true,
      decide_eq_true_eq] at mark
    rcases mark with ((rfl | rfl) | rfl) | rfl <;> cases defines
  rw [obey, if_neg (by simp [noMark]), defines]

/-- A definition leaves nothing in the output. -/
theorem reads_definition {definer name opener closer : Token} {word : Text} {isGlobal : Bool}
    {parameterText body rest : List Token} (expands : before.Expands)
    (isWord : definer.kind = .controlWord word)
    (defines : Scan.definer? word = some isGlobal)
    (unbound : before.shared.scope.lookup word = none) (definable : name.isDefinable = true)
    (unopened : ∀ token ∈ parameterText, token.isBeginGroup = false)
    (opens : opener.isBeginGroup = true) (balanced : Token.Balanced body)
    (closes : closer.isEndGroup = true)
    (ahead : before.stream.tokens =
      definer :: name :: parameterText ++ opener :: body ++ closer :: rest) :
    ∃ stream : Stream, stream.tokens = rest ∧
      stream.calls.length ≤ before.stream.next.2.calls.length ∧
      Reads settings site nested before
        { before.withScope (·.define
            (Macro.ofParameterText name.macroName parameterText body isGlobal)) with stream } := by
  rw [List.cons_append, List.cons_append] at ahead
  obtain ⟨behind, found, ahead⟩ := exists_next ahead
  have consumes := Scan.consumes_definition (List.forall_mem_nil _) definable unopened opens
    balanced closes isGlobal rest
  obtain ⟨stream, left, read⟩ :=
    attempt_of_consumes consumes { before with stream := behind } (by simp [ahead])
  have fewer := calls_attempt { before with stream := behind } (Scan.shrinks_definition isGlobal)
  rw [read] at fewer
  refine ⟨stream, left, by rw [found]; exact fewer, definer, behind, found, ?_⟩
  have same : { before with stream := behind }.Expands := ⟨expands.running, expands.code⟩
  rw [step_of_word same isWord unbound, obey_of_definer defines, defineBy, read]
  rfl

/-- A use of a macro whose arguments are found is replaced by its body. -/
theorem reads_use_of_consumes {use : Token} {definition : Macro} {tokens rest : List Token}
    {found : List (List Token)} (expands : before.Expands)
    (mayCall : before.MayCall settings.limits)
    (meaning : before.meaning? use = some definition)
    (consumes : Scan.Consumes (Scan.invocation definition use) tokens rest (.ok found))
    (ahead : before.stream.tokens = use :: tokens ++ rest) :
    ∃ stream : Stream, stream.tokens = rest ∧
      Reads settings site nested before
        { before with
          steps := before.steps + 1
          stream := stream.pushCall definition.name
            (Macro.substitute found definition.replacement) } := by
  rw [List.cons_append] at ahead
  obtain ⟨behind, next, ahead⟩ := exists_next ahead
  obtain ⟨stream, left, read⟩ := attempt_of_consumes consumes
    { before with stream := behind, steps := before.steps + 1 } ahead
  refine ⟨stream, left, use, behind, next, ?_⟩
  have admitted := mayCall.admission
  rw [next] at admitted
  have same : { before with stream := behind }.Expands := ⟨expands.running, expands.code⟩
  rw [step_of_meaning same meaning, invoke, admitted]
  simp only [call, read]

/-- A use of a macro is replaced by its body. -/
theorem reads_use {use : Token} {text : Macro.ParameterText} {name : Text}
    {body spelled rest : List Token} {isGlobal : Bool} {supplies : List Scan.Supply}
    (expands : before.Expands) (mayCall : before.MayCall settings.limits)
    (meaning : before.meaning? use = some (text.toMacro name body isGlobal))
    (same : Token.Match spelled text.literal)
    (supply : List.Forall₂ Scan.Supplies text.stops supplies)
    (ahead : before.stream.tokens =
      use :: spelled ++ supplies.flatMap Scan.Supply.written ++ rest) :
    ∃ stream : Stream, stream.tokens = rest ∧
      Reads settings site nested before
        { before with
          steps := before.steps + 1
          stream := stream.pushCall name
            (Macro.substitute (supplies.map Scan.Supply.argument) body) } := by
  have takes : List.Forall₂ (Scan.Takes (text.toMacro name body isGlobal).name use)
      (text.toMacro name body isGlobal).parameters supplies :=
    Scan.forall₂_takes (fun plain fits => Scan.takes_of_supplies plain fits name use)
      text.isBrace_of_mem_stops supply
  have consumes := Scan.consumes_invocation same takes rest
  exact reads_use_of_consumes expands mayCall meaning consumes ahead

/-- Where a macro could be called before, it can be called as long as no more calls are open. -/
theorem MayCall.of_calls_le {limits : Limits} {after : Branch} (mayCall : before.MayCall limits)
    (steps : after.steps = before.steps)
    (fewer : after.stream.calls.length ≤ before.stream.next.2.calls.length) :
    after.MayCall limits := by
  obtain ⟨maxSteps, maxDepth, found, depth, below, shallow⟩ := mayCall
  have later := Stream.calls_next after.stream
  exact ⟨maxSteps, maxDepth, found, depth, by omega, by omega⟩

/-- A name that has just been defined means its macro, however its token is placed. -/
theorem meaning?_define {name use : Token} (definable : name.isDefinable = true)
    (same : use.kind = name.kind) {definition : Macro} (named : definition.name = name.macroName) :
    (before.withScope (·.define definition)).meaning? use = some definition := by
  have usable : use.isDefinable = true ∧ use.macroName = name.macroName := by
    simp only [Token.isDefinable, Token.macroName, Token.value, same] at definable ⊢
    exact ⟨definable, trivial⟩
  rw [meaning?, if_pos usable.1, usable.2, ← named]
  exact Scope.lookup_define before.shared.scope definition

/-- Uses of a macro are replaced by a body. The tokens of a parameter text follow the name, with
arguments in the place of the parameters; the body with these arguments filled in is read next,
and then what stands behind the last argument. -/
def Replaces (settings : Settings) (site : Site) (nested : Nested) (definition : Macro)
    (text : Macro.ParameterText) (body : List Token) : Prop :=
  ∀ ⦃before : Branch⦄ ⦃use : Token⦄ ⦃spelled rest : List Token⦄ ⦃supplies : List Scan.Supply⦄,
    before.Expands → before.MayCall settings.limits → before.meaning? use = some definition →
    Token.Match spelled text.literal → List.Forall₂ Scan.Supplies text.stops supplies →
    before.stream.tokens = use :: spelled ++ supplies.flatMap Scan.Supply.written ++ rest →
    ∃ after filled, Reads settings site nested before after ∧ after.output = before.output ∧
      after.shared = before.shared ∧
      Macro.Filled (supplies.map Scan.Supply.argument) body filled ∧
      after.stream.tokens = filled ++ rest

/-- **A macro is replaced by the body of its definition.** The definition is read to the brace
that ends its body and leaves nothing in the output. Then its name means a macro whose uses are
replaced by the body, here and wherever this meaning still stands. -/
theorem exists_replaces {definer name opener closer : Token} {word : Text} {isGlobal : Bool}
    {body rest : List Token} (expands : before.Expands) (isWord : definer.kind = .controlWord word)
    (defines : Scan.definer? word = some isGlobal)
    (unbound : before.shared.scope.lookup word = none) (definable : name.isDefinable = true)
    (text : Macro.ParameterText) (opens : opener.isBeginGroup = true)
    (balanced : Token.Balanced body) (closes : closer.isEndGroup = true)
    (ahead : before.stream.tokens =
      definer :: name :: text.tokens ++ opener :: body ++ closer :: rest) :
    ∃ after definition, Reads settings site nested before after ∧
      after.output = before.output ∧ after.stream.tokens = rest ∧ after.Expands ∧
      (before.MayCall settings.limits → after.MayCall settings.limits) ∧
      (∀ use : Token, use.kind = name.kind → after.meaning? use = some definition) ∧
      Replaces settings site nested definition text body := by
  obtain ⟨stream, left, fewer, reads⟩ := reads_definition expands isWord defines unbound definable
    text.isBeginGroup_of_mem opens balanced closes ahead
  rw [text.ofParameterText_tokens] at reads
  refine ⟨_, text.toMacro name.macroName body isGlobal, reads, rfl, left,
    ⟨expands.running, expands.code⟩, ?_, fun use same => ?_, ?_⟩
  · rintro ⟨maxSteps, maxDepth, steps, depth, below, shallow⟩
    refine ⟨maxSteps, maxDepth, steps, depth, below, ?_⟩
    have later := Stream.calls_next stream
    change (stream.next.2.calls.length : Int) < maxDepth
    omega
  · have usable : use.isDefinable = true ∧ use.macroName = name.macroName := by
      simp only [Token.isDefinable, Token.macroName, Token.value, same] at definable ⊢
      exact ⟨definable, trivial⟩
    rw [meaning?, if_pos usable.1, usable.2]
    exact Scope.lookup_define before.shared.scope (text.toMacro name.macroName body isGlobal)
  · intro state use spelled others supplies expands mayCall meaning same supply ahead
    obtain ⟨behind, left, reads⟩ := reads_use expands mayCall meaning same supply ahead
    refine ⟨_, _, reads, rfl, rfl, Macro.filled_substitute body, ?_⟩
    rw [Stream.tokens_pushCall, left]

/-- The parameter text of `\def\a.#1,` with a parameter between a point and a comma. -/
def pointComma : Macro.ParameterText where
  literal := [.ofChar '.']
  slots := [⟨.ofKind (.parameter (.char '#')), .ofChar '1', [.ofChar ','], rfl, by decide⟩]
  plain := by decide
  numbered := by decide

/-- The body `[#1##]`. -/
def bracketed : List Token :=
  [.ofChar '[', .ofKind (.parameter (.char '#')), .ofChar '1', .ofKind (.parameter (.char '#')),
    .ofKind (.parameter (.char '#')), .ofChar ']']

/-- The argument `{b,c}`. -/
def commaInGroup : List Token :=
  .ofKind (.beginGroup (.char '\x7b')) :: [.ofChar 'b', .ofChar ',', .ofChar 'c'] ++
    [.ofKind (.endGroup (.char '\x7d'))]

/-- A branch that has to read `\def\a.#1,{[#1##]}\a.{b,c},d`. -/
def pointCommaStart : Branch where
  stream := .ofTokens <|
    .ofKind (.controlWord "def") :: .ofKind (.controlWord "a") :: pointComma.tokens ++
      .ofKind (.beginGroup (.char '\x7b')) :: bracketed ++
      .ofKind (.endGroup (.char '\x7d')) ::
      (.ofKind (.controlWord "a") :: [.ofChar '.'] ++ (commaInGroup ++ [.ofChar ',']) ++
        [.ofChar 'd'])
  steps := 0
  aborted := false
  verbatim := none
  output := #[]
  inclusions := #[]
  shared := ⟨Scope.empty, .empty noFiles.currentDirectory, #[], []⟩

/-- The argument of `\a.{b,c},d` ends behind the group and loses its braces. -/
theorem exists_replaces_pointComma :
    ∃ first second : Branch,
      Reads ⟨noFiles, {}, .standard⟩ ⟨0, [0], 0⟩ none pointCommaStart first ∧
      Reads ⟨noFiles, {}, .standard⟩ ⟨0, [0], 0⟩ none first second ∧ second.output = #[] ∧
      second.stream.tokens.map Token.kind =
        [.character (.char '[') .other, .character (.char 'b') .other,
          .character (.char ',') .other, .character (.char 'c') .other, .parameter (.char '#'),
          .character (.char ']') .other, .character (.char 'd') .other] := by
  have expands : pointCommaStart.Expands := ⟨rfl, rfl⟩
  have balanced : Token.Balanced bracketed := by decide
  obtain ⟨first, definition, reads, quiet, ahead, expands, mayCall, means, replaces⟩ :=
    exists_replaces expands rfl rfl rfl rfl pointComma rfl balanced rfl
      (Stream.tokens_ofTokens _)
  have limits : pointCommaStart.MayCall (Settings.limits ⟨noFiles, {}, .standard⟩) :=
    ⟨10000, 64, rfl, rfl, by decide, by decide⟩
  have bares : Macro.Bared commaInGroup [.ofChar 'b', .ofChar ',', .ofChar 'c'] :=
    .enclosed rfl rfl (by decide)
  have supply : List.Forall₂ Scan.Supplies pointComma.stops
      [⟨commaInGroup ++ [.ofChar ','], [.ofChar 'b', .ofChar ',', .ofChar 'c']⟩] :=
    .cons (.delimited (by decide) (by decide) (by decide) (by decide) bares) .nil
  obtain ⟨second, filled, uses, same, -, fills, left⟩ :=
    replaces expands (mayCall limits) (means _ rfl) (.cons rfl .nil) supply ahead
  rw [Macro.filled_iff.mp fills] at left
  refine ⟨first, second, reads, uses, same.trans quiet, ?_⟩
  rw [left]
  decide

end Branch

end Expansion

end TexSource
