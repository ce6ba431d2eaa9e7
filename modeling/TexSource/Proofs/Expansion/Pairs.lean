import TexSource.Proofs.Expansion.Matching
import TexSource.Proofs.Expansion.NewCommands
import TexSource.Proofs.Expansion.Reading

/-!
# Braces in pairs

Most of what a scan takes brings as many closing braces as opening ones (`Token.Cancels`), so that a
text whose braces match goes on behind it as it would have without it. Where the texts of a macro
have their braces in pairs (`Macro.Paired`), and its arguments leave the depth of braces as it is,
so does what replaces a use of it (`Macro.depthBehind_substitute`).
-/

namespace TexSource

namespace Token

/-- As many braces are closed as opened, if none is closed that is not open. -/
def Cancels (tokens : List Token) : Prop :=
  ∀ depth behind, depthBehind depth tokens = some behind → behind = depth

/-- Where tokens can be read at a depth, others leave the depth as it is. -/
def Levels (depth : Nat) (tokens others : List Token) : Prop :=
  ∀ behind, depthBehind depth tokens = some behind → depthBehind depth others = some depth

variable {depth : Nat} {token : Token} {tokens others rest : List Token}

/-- Tokens without braces cancel out. -/
theorem cancels_plain (plain : ∀ token ∈ tokens, token.isBrace = false) : Cancels tokens := by
  intro depth behind found
  rw [depthBehind_plain plain] at found
  exact (Option.some_inj.mp found).symm

/-- Balanced tokens cancel out. -/
theorem Balanced.cancels (balanced : Balanced tokens) : Cancels tokens := by
  intro depth behind found
  rw [balanced.depthBehind] at found
  exact (Option.some_inj.mp found).symm

/-- Tokens that cancel out do so one after another. -/
theorem Cancels.append (cancels : Cancels tokens) (later : Cancels others) :
    Cancels (tokens ++ others) := by
  intro depth behind found
  obtain ⟨middle, first, second⟩ := exists_depthBehind_of_append found
  rw [later middle behind second, cancels depth middle first]

theorem Cancels.cons (plain : token.isBrace = false) (cancels : Cancels tokens) :
    Cancels (token :: tokens) :=
  (cancels_plain (List.forall_mem_singleton.mpr plain)).append cancels

theorem Cancels.concat (cancels : Cancels tokens) (plain : token.isBrace = false) :
    Cancels (tokens ++ [token]) :=
  cancels.append (cancels_plain (List.forall_mem_singleton.mpr plain))

/-- Tokens that cancel out stay at one level. -/
theorem Cancels.levels (cancels : Cancels tokens) : Levels depth tokens tokens := by
  intro behind found
  rw [found, cancels depth behind found]

theorem Balanced.levels (balanced : Balanced others) : Levels depth tokens others :=
  fun _ _ => balanced.depthBehind

/-- What stays at its level does so before others. -/
theorem Levels.append (levels : Levels depth tokens others) (behind : List Token) :
    Levels depth (tokens ++ behind) others := by
  intro last found
  obtain ⟨middle, first, -⟩ := exists_depthBehind_of_append found
  exact levels middle first

/-- What tokens leave as it is they leave so behind tokens whose braces cancel. -/
theorem Levels.behind (levels : Levels depth tokens others) {front : List Token}
    (cancels : Cancels front) : Levels depth (front ++ tokens) others := by
  intro last found
  obtain ⟨middle, first, later⟩ := exists_depthBehind_of_append found
  rw [cancels depth middle first] at later
  exact levels last later

/-- A brace does not stand alone in balanced tokens. -/
theorem balanced_singleton_iff : Balanced [token] ↔ token.isBrace = false := by
  unfold Balanced
  constructor
  · intro balanced
    by_cases opens : token.isBeginGroup = true
    · rw [depthBehind_beginGroup opens] at balanced
      cases balanced
    by_cases closes : token.isEndGroup = true
    · rw [depthBehind_stray closes] at balanced
      cases balanced
    simp [isBrace, opens, closes]
  · exact fun plain => depthBehind_plain (List.forall_mem_singleton.mpr plain)

/-- Braces around balanced tokens match. -/
theorem balanced_enclosed {opener closer : Token} (opens : opener.isBeginGroup = true)
    (balanced : Balanced tokens) (closes : closer.isEndGroup = true) :
    Balanced (opener :: tokens ++ [closer]) := by
  rw [Balanced, List.cons_append, depthBehind_beginGroup opens, depthBehind_append,
    balanced.depthBehind, Option.bind_some, depthBehind_endGroup closes, depthBehind_nil]

/-- Where no brace is opened, none is closed in front of a place that is outside braces. -/
theorem plain_of_depthBehind {behind : Nat} (found : depthBehind 0 tokens = some behind)
    (unopened : ∀ token ∈ tokens, token.isBeginGroup = false) :
    ∀ token ∈ tokens, token.isBrace = false := by
  induction tokens with
  | nil => exact List.forall_mem_nil _
  | cons token rest ih =>
    rw [List.forall_mem_cons] at unopened ⊢
    by_cases closes : token.isEndGroup = true
    · rw [depthBehind_stray closes] at found
      cases found
    have plain : token.isBrace = false := by simp [isBrace, unopened.1, closes]
    rw [depthBehind_other plain] at found
    exact ⟨plain, ih found unopened.2⟩

/-- The name of a file is balanced. -/
theorem NamesFile.balanced (names : NamesFile tokens) : Balanced tokens := by
  cases names with
  | intro blank opens balanced closes =>
    rw [Balanced, depthBehind_append, depthBehind_plain, Option.bind_some]
    · exact balanced_enclosed opens balanced closes
    · intro token member
      have space := blank token member
      simp only [isSpace, decide_eq_true_eq] at space
      simp [isBrace, isBeginGroup, isEndGroup, space]

@[simp] theorem isBrace_markExpanded (token : Token) : token.markExpanded.isBrace = token.isBrace :=
  rfl

end Token

namespace Parameter

/-- The braces in what a parameter writes of its own match, and none are looked for. -/
inductive Paired : Parameter → Prop where
  | undelimited : Paired .undelimited
  | delimited {stop : List Token} (delimits : stop ≠ [])
      (plain : ∀ token ∈ stop, token.isBrace = false) : Paired (.delimited stop)
  | optional {default : List Token} (balanced : Token.Balanced default) : Paired (.optional default)

end Parameter

namespace Macro

/-- The braces in the texts of a macro match. -/
structure Paired (definition : Macro) : Prop where
  replacement : Token.Balanced definition.replacement
  literal : ∀ token ∈ definition.literal, token.isBrace = false
  parameters : ∀ parameter ∈ definition.parameters, parameter.Paired

/-- All that a parameter text is split into stands in it. -/
theorem forall_mem_splitParameterText {property : Token → Prop} {tokens : List Token}
    (holds : ∀ token ∈ tokens, property token) :
    (∀ token ∈ (splitParameterText tokens).1, property token) ∧
      ∀ stop ∈ (splitParameterText tokens).2, ∀ token ∈ stop, property token := by
  fun_induction splitParameterText tokens with
  | case1 => exact ⟨List.forall_mem_nil _, List.forall_mem_nil _⟩
  | case2 => exact ⟨List.forall_mem_nil _, List.forall_mem_nil _⟩
  | case3 => exact ⟨holds, List.forall_mem_nil _⟩
  | case4 token next rest _ stop stops split ih =>
    rw [split] at ih
    obtain ⟨first, others⟩ := ih fun other member =>
      holds other (List.mem_cons_of_mem _ (List.mem_cons_of_mem _ member))
    exact ⟨List.forall_mem_nil _, List.forall_mem_cons.mpr ⟨first, others⟩⟩
  | case5 token next rest _ first stops split ih =>
    rw [split] at ih
    rw [List.forall_mem_cons] at holds
    obtain ⟨literal, others⟩ := ih holds.2
    exact ⟨List.forall_mem_cons.mpr ⟨holds.1, literal⟩, others⟩

/-- A definition without braces in its parameter text is paired if its body is balanced. -/
theorem paired_ofParameterText {parameterText body : List Token} (name : Text) (isGlobal : Bool)
    (plain : ∀ token ∈ parameterText, token.isBrace = false) (balanced : Token.Balanced body) :
    (ofParameterText name parameterText body isGlobal).Paired := by
  obtain ⟨literal, stops⟩ := forall_mem_splitParameterText plain
  refine ⟨balanced, literal, fun parameter member => ?_⟩
  obtain ⟨stop, present, rfl⟩ := List.mem_map.mp member
  unfold parameterBefore
  split
  · exact .undelimited
  · exact .delimited ‹_› (stops stop present)

/-- Another name keeps a macro paired. -/
theorem Paired.rename {definition : Macro} (paired : definition.Paired) (name : Text)
    (isGlobal : Bool) : Paired { definition with name, isGlobal } :=
  ⟨paired.replacement, paired.literal, paired.parameters⟩

/-- A parameter mark is no brace. -/
theorem isBrace_of_isParameter {token : Token} (isMark : token.isParameter = true) :
    token.isBrace = false := by
  unfold Token.isParameter at isMark
  cases kind : token.kind <;> simp_all [Token.isBrace, Token.isBeginGroup, Token.isEndGroup]

/-- The digit of a parameter is no brace. -/
theorem isBrace_of_parameterNumber? {digit : Token} {number : Nat}
    (isNumber : digit.parameterNumber? = some number) : digit.isBrace = false := by
  unfold Token.parameterNumber? at isNumber
  cases kind : digit.kind <;> simp_all [Token.isBrace, Token.isBeginGroup, Token.isEndGroup]

/-- Marking a token keeps the depth behind it. -/
theorem depthBehind_markExpanded_cons {outer inner behind : Nat} {token : Token}
    {rest others : List Token} (found : Token.depthBehind inner (token :: rest) = some behind)
    (later : ∀ middle, Token.depthBehind middle rest = some behind →
      Token.depthBehind (outer + middle) others = some (outer + behind)) :
    Token.depthBehind (outer + inner) (token.markExpanded :: others) = some (outer + behind) := by
  by_cases opens : token.isBeginGroup = true
  · rw [Token.depthBehind_beginGroup opens] at found
    have marked : token.markExpanded.isBeginGroup = true := opens
    rw [Token.depthBehind_beginGroup marked]
    exact later _ found
  by_cases closes : token.isEndGroup = true
  · cases inner with
    | zero =>
      rw [Token.depthBehind_stray closes] at found
      cases found
    | succ inner =>
      rw [Token.depthBehind_endGroup closes] at found
      have marked : token.markExpanded.isEndGroup = true := closes
      rw [← Nat.add_assoc, Token.depthBehind_endGroup marked]
      exact later _ found
  · have plain : token.isBrace = false := by simp [Token.isBrace, opens, closes]
    rw [Token.depthBehind_other plain] at found
    rw [← Token.isBrace_markExpanded] at plain
    rw [Token.depthBehind_other plain]
    exact later _ found

/-- **Arguments that leave the depth of braces as it is leave it so in a replacement.** -/
theorem depthBehind_substitute {depth inner behind : Nat} {arguments : List (List Token)}
    (level : ∀ argument ∈ arguments, Token.depthBehind depth argument = some depth)
    {replacement : List Token} (found : Token.depthBehind inner replacement = some behind) :
    Token.depthBehind (depth + inner) (substitute arguments replacement) =
      some (depth + behind) := by
  fun_induction substitute arguments replacement generalizing inner with
  | case1 =>
    cases found
    rfl
  | case2 token =>
    refine depthBehind_markExpanded_cons found fun middle last => ?_
    cases last
    rfl
  | case3 token next rest isMark isSecond ih =>
    rw [Token.depthBehind_other (isBrace_of_isParameter isMark)] at found
    exact depthBehind_markExpanded_cons found fun _ => ih
  | case4 token next rest isMark _ argument given ih =>
    obtain ⟨number, isNumber, given⟩ := argument?_eq_some_iff.mp given
    rw [Token.depthBehind_other (isBrace_of_isParameter isMark),
      Token.depthBehind_other (isBrace_of_parameterNumber? isNumber)] at found
    have inside := Token.depthBehind_add inner (level argument (List.mem_of_getElem? given))
    rw [Token.depthBehind_append, inside, Option.bind_some]
    exact ih found
  | case5 token next rest _ _ _ ih => exact depthBehind_markExpanded_cons found fun _ => ih
  | case6 token next rest _ ih => exact depthBehind_markExpanded_cons found fun _ => ih

/-- Arguments that keep a depth do so in the replacement. -/
theorem Paired.substitute {definition : Macro} (paired : definition.Paired) {depth : Nat}
    {arguments : List (List Token)}
    (level : ∀ argument ∈ arguments, Token.depthBehind depth argument = some depth) :
    Token.depthBehind depth (substitute arguments definition.replacement) = some depth :=
  depthBehind_substitute level paired.replacement

/-- Stripping the braces around keeps tokens balanced. -/
theorem balanced_stripBraces {argument : List Token} (balanced : Token.Balanced argument) :
    Token.Balanced (stripBraces argument) := by
  have bared := bared_stripBraces balanced
  generalize stripBraces argument = bare at bared
  cases bared with
  | enclosed _ _ inside => exact inside
  | plain => exact balanced

end Macro

namespace Expansion

section

open Token

/-- Up to the bracket that ends an optional argument, braces cancel as far as they are counted. -/
theorem depth_of_goes_bracketTest {depth behind : Int} {tokens : List Token}
    (goes : Goes Scan.bracketTest depth tokens behind) {outer inner : Nat}
    (found : depthBehind outer tokens = some inner) : (inner : Int) - outer = behind - depth := by
  induction goes generalizing outer with
  | nil =>
    cases found
    omega
  | @cons depth middle last token rest goesOn _ ih =>
    unfold Scan.bracketTest at goesOn
    by_cases opens : token.isBeginGroup = true
    · rw [if_pos opens] at goesOn
      rw [depthBehind_beginGroup opens] at found
      cases goesOn
      have := ih found
      omega
    rw [if_neg opens] at goesOn
    by_cases closes : token.isEndGroup = true
    · rw [if_pos closes] at goesOn
      cases goesOn
      cases outer with
      | zero =>
        rw [depthBehind_stray closes] at found
        cases found
      | succ outer =>
        rw [depthBehind_endGroup closes] at found
        have := ih found
        omega
    · rw [if_neg closes] at goesOn
      rw [depthBehind_other (by simp [isBrace, opens, closes])] at found
      obtain rfl := (Prod.ext_iff.mp goesOn).1
      exact ih found

/-- A bracket argument ends with a bracket outside of braces. -/
theorem bracketTest_stops {depth behind : Int} {token : Token}
    (stops : Scan.bracketTest depth token = (behind, true)) :
    depth = 0 ∧ token.isCharacter ']' = true := by
  unfold Scan.bracketTest at stops
  by_cases opens : token.isBeginGroup = true
  · rw [if_pos opens] at stops
    cases stops
  by_cases closes : token.isEndGroup = true
  · rw [if_neg opens, if_pos closes] at stops
    cases stops
  · rw [if_neg opens, if_neg closes] at stops
    simpa using (Prod.ext_iff.mp stops).2

end

namespace Scan

variable {front : List Token}

/-- What is passed over is no brace. -/
theorem isBrace_of_isSkipped {spacesOnly : Bool} {token : Token}
    (skipped : isSkipped spacesOnly token = true) : token.isBrace = false := by
  unfold isSkipped Token.isSpace Token.isEndOfLine Token.isComment at skipped
  cases kind : token.kind <;>
    simp_all [Token.isBrace, Token.isBeginGroup, Token.isEndGroup]

/-- What is granted of all tokens that may have been taken is granted of those that were. -/
theorem Ensures.of_exists {Result Index : Type} {scan : Scan Result}
    {property : Index → Prop} {consumed : Index → List Token} {after : Result → Scanner → Prop}
    (each : ∀ index, property index → Ensures (·.consumed = consumed index) scan after) :
    Ensures (fun scanner => ∃ index, property index ∧ scanner.consumed = consumed index) scan
      after :=
  ⟨fun scanner ⟨index, holds, same⟩ => (each index holds).ensure scanner same⟩

/-- A fact about what is known before may be used in the scan. -/
theorem Ensures.of_and {Result : Type} {scan : Scan Result} {consumed : List Token}
    {property : Prop} {after : Result → Scanner → Prop}
    (ensures : property → Ensures (·.consumed = consumed) scan after) :
    Ensures (fun scanner => scanner.consumed = consumed ∧ property) scan after :=
  ⟨fun scanner ⟨same, holds⟩ => (ensures holds).ensure scanner same⟩

/-- A condition that holds may be dropped. -/
theorem Ensures.of_implies {Result : Type} {scan : Scan Result} {before : Scanner → Prop}
    {condition : Prop} {after : Result → Scanner → Prop} (holds : condition)
    (ensures : Ensures before scan after) :
    Ensures (fun scanner => condition → before scanner) scan after :=
  ensures.weaken fun _ implied => implied holds

/-- What is known of a content may be used if it is there. -/
theorem Ensures.of_some {Result Content : Type} {scan : Scan Result} {content : Content}
    {before : Content → Scanner → Prop} {after : Result → Scanner → Prop}
    (ensures : Ensures (before content) scan after) :
    Ensures (fun scanner => ∀ found ∈ some content, before found scanner) scan after :=
  ensures.weaken fun _ all => all content rfl

theorem isCharacter_of_any {token : Option Token} {character : Char}
    (is : token.any (Token.isCharacter · character) = true) :
    ∃ found, token = some found ∧ found.isCharacter character = true := by
  cases token with
  | none => cases is
  | some token => exact ⟨token, rfl, is⟩

/-- Only tokens without braces are skipped. -/
theorem ensures_cancels (spacesOnly : Bool) (front : List Token) :
    Ensures (·.consumed = front) (nextSignificant spacesOnly) fun token scanner =>
      ∃ more, Token.Cancels more ∧ scanner.consumed = front ++ more ++ token.toList := by
  constructor
  intro scanner same
  obtain ⟨blanks, skipped, same⟩ := (ensures_skipped spacesOnly front).ensure scanner same
  exact ⟨blanks, Token.cancels_plain fun token member =>
    isBrace_of_isSkipped (skipped token member), same⟩

/-- Braces cancel in brackets, as far as none is closed that was opened outside. -/
theorem ensures_bracket (front : List Token) :
    Ensures (·.consumed = front) bracket fun body scanner => ∀ content ∈ body,
      ∃ closer, (closer.isBrace = false ∧ Token.Cancels content) ∧
        scanner.consumed = front ++ content ++ [closer] := by
  apply (ensures_reading _ _ front).bind
  intro reading
  apply Ensures.pure
  rintro scanner ⟨same, middle, goes, stopped⟩ content found
  obtain ⟨closer, stop, rfl⟩ := Option.map_eq_some_iff.mp found
  obtain ⟨rfl, closes⟩ := bracketTest_stops (stopped closer stop)
  have cancels : Token.Cancels reading.before := by
    intro depth behind read
    have := depth_of_goes_bracketTest goes read
    omega
  exact ⟨closer, ⟨Token.isBrace_of_isCharacter closes, cancels⟩, by simpa [stop] using same⟩

/-- The next token is consumed. -/
theorem ensures_next (front : List Token) : Ensures (·.consumed = front) next fun token scanner =>
    scanner.consumed = front ++ token.toList := by
  apply (ensures_reading _ _ front).bind
  intro reading
  apply Ensures.pure
  rintro scanner ⟨same, middle, goes, -⟩
  have none : reading.before = [] :=
    List.eq_nil_iff_forall_not_mem.mpr fun token member => by cases goes.forall token member
  rwa [none, List.append_nil] at same

/-- What a group is read for, with its braces. -/
theorem ensures_group {opener : Token} (opens : opener.isBeginGroup = true) (front : List Token) :
    Ensures (·.consumed = front ++ [opener]) closedGroup fun body scanner => ∀ content ∈ body,
      ∃ closer, Token.Balanced (opener :: content ++ [closer]) ∧ Token.Balanced content ∧
        scanner.consumed = front ++ (opener :: content ++ [closer]) := by
  constructor
  intro scanner same content found
  obtain ⟨balanced, closer, closes, same⟩ :=
    (ensures_closedGroup _).ensure scanner same content found
  exact ⟨closer, Token.balanced_enclosed opens balanced closes, balanced, by simpa using same⟩

end Scan

end Expansion

end TexSource
