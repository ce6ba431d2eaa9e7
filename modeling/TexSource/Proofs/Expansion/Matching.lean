import Mathlib.Data.List.Forall2
import TexSource.Proofs.Expansion.Consuming

/-!
# Arguments of macros

What stands behind the name of a macro in its use is matched with the parameter text of the
definition: the literal tokens first, then one argument after another. A group is the argument of
a parameter without a delimiter. The search for a delimiter stops at the first place outside
braces where it matches (`Scan.Delimits`), and takes a pair of braces off an argument that it
encloses (`Macro.Bared`).
-/

namespace TexSource

/-- Two texts match as delimiters of macro arguments, token by token. -/
def Token.Match (tokens others : List Token) : Prop :=
  List.Forall₂ (fun token other => token.sameAs other = true) tokens others

instance (tokens others : List Token) : Decidable (Token.Match tokens others) :=
  inferInstanceAs (Decidable (List.Forall₂ _ _ _))

namespace Token

variable {depth : Nat} {token other : Token} {tokens others : List Token}

/-- A token that matches no brace is none. -/
theorem isBrace_of_sameAs (same : token.sameAs other = true) (plain : other.isBrace = false) :
    token.isBrace = false := by
  unfold sameAs at same
  unfold isBrace isBeginGroup isEndGroup at plain ⊢
  cases kind : token.kind <;> cases otherKind : other.kind <;>
    simp_all [Kind.sameAs]

theorem Match.plain (same : Match tokens others) (plain : ∀ token ∈ others, token.isBrace = false) :
    ∀ token ∈ tokens, token.isBrace = false := by
  induction same with
  | nil => exact nofun
  | cons first _ ih =>
    rw [List.forall_mem_cons] at plain ⊢
    exact ⟨isBrace_of_sameAs first plain.1, ih plain.2⟩

/-- Nothing is missing in front of what is read at a depth. -/
theorem exists_depthBehind_of_append {behind : Nat}
    (found : depthBehind depth (tokens ++ others) = some behind) :
    ∃ middle, depthBehind depth tokens = some middle ∧
      depthBehind middle others = some behind := by
  rw [depthBehind_append] at found
  exact Option.bind_eq_some_iff.mp found

end Token

namespace Macro

/-- An argument without the pair of braces that encloses all of it, or the same argument if no
pair does. -/
inductive Bared : (argument bared : List Token) → Prop where
  | enclosed {opener closer : Token} {inner : List Token} (opens : opener.isBeginGroup = true)
      (closes : closer.isEndGroup = true) (balanced : Token.Balanced inner) :
      Bared (opener :: inner ++ [closer]) inner
  | plain {argument : List Token}
      (plain : ∀ (opener closer : Token) (inner : List Token), opener.isBeginGroup = true →
        closer.isEndGroup = true → Token.Balanced inner → argument ≠ opener :: inner ++ [closer]) :
      Bared argument argument

/-- A group lasts to a token if no brace before the token closes it. -/
theorem lastsToEnd_append (depth : Nat) (inner : List Token) (last : Token) :
    lastsToEnd (depth + 1) (inner ++ [last]) = (Token.depthBehind depth inner).isSome := by
  fun_induction Token.depthBehind depth inner with
  | case1 => rfl
  | case2 depth token rest opens ih =>
    rw [← ih, List.cons_append]
    cases rest <;> simp [lastsToEnd, opens]
  | case3 token rest opens closes =>
    cases rest <;> simp [lastsToEnd, opens, closes]
  | case4 token rest opens closes outer ih =>
    rw [← ih, List.cons_append]
    cases rest <;> simp [lastsToEnd, opens, closes]
  | case5 depth token rest opens closes ih =>
    rw [← ih, List.cons_append]
    cases rest <;> simp [lastsToEnd, opens, closes]

theorem stripBraces_append (opener closer : Token) (inner : List Token) :
    stripBraces (opener :: inner ++ [closer]) =
      if opener.isBeginGroup && closer.isEndGroup && (Token.depthBehind 0 inner).isSome then inner
      else opener :: inner ++ [closer] := by
  rw [← lastsToEnd_append 0 inner closer]
  cases inner with
  | nil => simp [stripBraces]
  | cons next rest =>
    have last : ((next :: rest) ++ [closer]).getLast? = some closer := List.getLast?_concat
    have front : ((next :: rest) ++ [closer]).dropLast = next :: rest := List.dropLast_concat
    rw [List.cons_append] at last front
    simp [stripBraces, last, front]

/-- What encloses balanced tokens in braces encloses balanced ones. -/
theorem balanced_of_enclosed {opener closer : Token} {inner : List Token}
    (opens : opener.isBeginGroup = true) (closes : closer.isEndGroup = true)
    (balanced : Token.Balanced (opener :: inner ++ [closer]))
    (lasts : (Token.depthBehind 0 inner).isSome = true) : Token.Balanced inner := by
  obtain ⟨behind, found⟩ := Option.isSome_iff_exists.mp lasts
  have inside := Token.depthBehind_add 1 found
  rw [Token.Balanced, List.cons_append, Token.depthBehind_beginGroup opens,
    Token.depthBehind_append, inside, Option.bind_some, Token.depthBehind_endGroup closes,
    Token.depthBehind_nil] at balanced
  rw [Token.Balanced, found, balanced]

theorem bared_stripBraces {argument : List Token} (balanced : Token.Balanced argument) :
    Bared argument (stripBraces argument) := by
  rcases argument with _ | ⟨opener, rest⟩
  · exact .plain fun _ _ _ _ _ _ same => by cases same
  rcases rest.eq_nil_or_concat with rfl | ⟨inner, closer, rfl⟩
  · exact .plain fun _ _ inner _ _ _ same => by cases inner <;> cases same
  rw [List.concat_eq_append, ← List.cons_append] at balanced ⊢
  rw [stripBraces_append]
  split
  · rename_i encloses
    simp only [Bool.and_eq_true] at encloses
    obtain ⟨⟨opens, closes⟩, lasts⟩ := encloses
    exact .enclosed opens closes (balanced_of_enclosed opens closes balanced lasts)
  · rename_i none
    refine .plain fun otherOpener otherCloser otherInner opens closes balanced same => none ?_
    obtain ⟨front, last⟩ := List.append_inj' same rfl
    obtain ⟨rfl, rfl⟩ := List.cons_eq_cons.mp front
    obtain ⟨rfl, -⟩ := List.cons_eq_cons.mp last
    rw [opens, closes, balanced]
    rfl

theorem bared_iff {argument bared : List Token} (balanced : Token.Balanced argument) :
    Bared argument bared ↔ bared = stripBraces argument := by
  refine ⟨fun bares => ?_, fun same => same ▸ bared_stripBraces balanced⟩
  cases bares with
  | @enclosed opener closer inner opens closes inside =>
    rw [stripBraces_append, opens, closes, inside]
    rfl
  | plain plain =>
    have strips := bared_stripBraces balanced
    revert strips
    generalize stripBraces argument = stripped
    intro strips
    cases strips with
    | enclosed opens closes inside => exact absurd rfl (plain _ _ _ opens closes inside)
    | plain => rfl

end Macro

namespace Expansion

namespace Scan

/-- In an argument with a delimiter behind it, the first place outside braces where the
delimiter of a parameter matches is right behind the argument. -/
def Delimits (stop argument delimiter : List Token) : Prop :=
  ∀ before found after, argument ++ delimiter = before ++ found ++ after →
    Token.Balanced before → Token.Match found stop → argument.length ≤ before.length

theorem delimits_iff {stop argument delimiter : List Token} :
    Delimits stop argument delimiter ↔ ∀ place < argument.length,
      Token.Balanced ((argument ++ delimiter).take place) →
        ¬Token.Match (((argument ++ delimiter).drop place).take stop.length) stop := by
  constructor
  · intro first place inside outside found
    have behind := first _ _ (((argument ++ delimiter).drop place).drop stop.length)
      (by rw [List.append_assoc, List.take_append_drop, List.take_append_drop]) outside found
    rw [List.length_take, List.length_append] at behind
    omega
  · intro absent before found after split outside same
    by_contra inside
    refine absent before.length (by omega) ?_ ?_
    · rwa [split, List.append_assoc, List.take_left]
    · rwa [split, List.append_assoc, List.drop_left, ← List.Forall₂.length_eq same, List.take_left]

instance (stop argument delimiter : List Token) : Decidable (Delimits stop argument delimiter) :=
  decidable_of_iff _ delimits_iff.symm

/-- What a search remembers of tokens, the latest first: each, and whether it stood outside
braces. -/
def seenBehind : (reversed : List Token) → List (Token × Bool)
  | [] => []
  | token :: earlier => (token, decide (Token.Balanced earlier.reverse)) :: seenBehind earlier

theorem delimiterTest_seenBehind {reversedStop tokens : List Token} {token : Token}
    {depth behind : Nat} (found : Token.depthBehind 0 tokens = some depth)
    (next : Token.depthBehind depth [token] = some behind) :
    delimiterTest reversedStop ⟨depth, seenBehind tokens.reverse, none⟩ token =
      (⟨behind, seenBehind (tokens ++ [token]).reverse, none⟩,
        endsWith reversedStop (seenBehind (tokens ++ [token]).reverse)) := by
  have outside : decide (depth = 0) = decide (Token.Balanced tokens.reverse.reverse) := by
    simp [Token.Balanced, found]
  rw [List.reverse_append, List.reverse_singleton, List.singleton_append, seenBehind, ← outside]
  refine Prod.ext ?_ rfl
  unfold delimiterTest
  dsimp only
  by_cases opens : token.isBeginGroup = true
  · rw [Token.depthBehind_beginGroup opens] at next
    cases next
    rw [if_pos opens]
  by_cases closes : token.isEndGroup = true
  · rw [if_neg opens, if_pos closes]
    cases depth with
    | zero =>
      rw [Token.depthBehind_stray closes] at next
      cases next
    | succ outer =>
      rw [Token.depthBehind_endGroup closes] at next
      cases next
      rfl
  · rw [Token.depthBehind_other (by simp [Token.isBrace, opens, closes])] at next
    cases next
    rw [if_neg opens, if_neg closes]

/-- The latest tokens are a delimiter if they match it and stand outside braces. -/
theorem endsWith_seenBehind {reversedStop reversed : List Token}
    (plain : ∀ token ∈ reversedStop, token.isBrace = false) :
    endsWith reversedStop (seenBehind reversed) = true ↔
      ∃ found earlier, reversed = found ++ earlier ∧ Token.Match found reversedStop ∧
        (reversedStop ≠ [] → Token.Balanced earlier.reverse) := by
  induction reversedStop generalizing reversed with
  | nil =>
    refine iff_of_true rfl ⟨[], reversed, rfl, .nil, nofun⟩
  | cons expected rest ih =>
    rw [List.forall_mem_cons] at plain
    cases reversed with
    | nil =>
      refine iff_of_false (by simp [seenBehind, endsWith]) ?_
      rintro ⟨_, _, same, found | _, _⟩
      cases same
    | cons token tokens =>
      simp only [seenBehind, endsWith, Bool.and_eq_true, decide_eq_true_eq, ih plain.2]
      constructor
      · rintro ⟨⟨outside, same⟩, found, earlier, rfl, matched, balanced⟩
        refine ⟨token :: found, earlier, rfl, .cons same matched, fun _ => ?_⟩
        cases matched with
        | nil => exact outside
        | cons => exact balanced nofun
      · rintro ⟨_, earlier, split, whole, balanced⟩
        obtain ⟨first, found, same, matched, rfl⟩ := List.forall₂_cons_right_iff.mp whole
        rw [List.cons_append] at split
        obtain ⟨rfl, rfl⟩ := List.cons_eq_cons.mp split
        have outside := balanced nofun
        refine ⟨⟨?_, same⟩, found, earlier, rfl, matched, fun _ => outside⟩
        have quiet := Token.Match.plain matched plain.2
        rw [Token.Balanced, List.reverse_append, Token.depthBehind_append, outside,
          Option.bind_some]
        exact Token.depthBehind_plain fun token member => quiet token (List.mem_reverse.mp member)

/-- A search ends where the tokens read end with the delimiter, outside braces. -/
theorem endsWith_iff {stop tokens : List Token} (delimits : stop ≠ [])
    (plain : ∀ token ∈ stop, token.isBrace = false) :
    endsWith stop.reverse (seenBehind tokens.reverse) = true ↔
      ∃ before found, tokens = before ++ found ∧ Token.Balanced before ∧
        Token.Match found stop := by
  rw [endsWith_seenBehind fun token member => plain token (List.mem_reverse.mp member)]
  constructor
  · rintro ⟨found, earlier, split, matched, balanced⟩
    refine ⟨earlier.reverse, found.reverse, ?_, balanced (by simpa using delimits), ?_⟩
    · rw [← List.reverse_append, ← split, List.reverse_reverse]
    · exact List.forall₂_reverse_iff.mp (by rwa [List.reverse_reverse])
  · rintro ⟨before, found, rfl, balanced, matched⟩
    refine ⟨found.reverse, before.reverse, List.reverse_append, ?_, fun _ => ?_⟩
    · exact List.forall₂_reverse_iff.mpr matched
    · rwa [List.reverse_reverse]

/-- A search goes over tokens as long as none of their beginnings ends with the delimiter. -/
theorem goes_delimiterTest {stop before tokens : List Token} {depth behind : Nat}
    (delimits : stop ≠ []) (plain : ∀ token ∈ stop, token.isBrace = false)
    (read : Token.depthBehind 0 before = some depth)
    (found : Token.depthBehind depth tokens = some behind)
    (absent : ∀ front matched after, before ++ tokens = front ++ matched ++ after →
      Token.Balanced front → ¬Token.Match matched stop) :
    Goes (delimiterTest stop.reverse) ⟨depth, seenBehind before.reverse, none⟩ tokens
      ⟨behind, seenBehind (before ++ tokens).reverse, none⟩ := by
  induction tokens generalizing before depth with
  | nil =>
    cases found
    rw [List.append_nil]
    exact .nil _
  | cons token rest ih =>
    rw [← List.singleton_append] at found
    obtain ⟨middle, first, later⟩ := Token.exists_depthBehind_of_append found
    have readOn : Token.depthBehind 0 (before ++ [token]) = some middle := by
      rw [Token.depthBehind_append, read, Option.bind_some, first]
    rw [List.append_cons] at absent ⊢
    refine .cons ?_ (ih readOn later absent)
    rw [delimiterTest_seenBehind read first]
    refine Prod.ext rfl (Bool.eq_false_iff.mpr fun ends => ?_)
    obtain ⟨front, matched, split, balanced, same⟩ := (endsWith_iff delimits plain).mp ends
    exact absent front matched rest (by rw [split]) balanced same

/-- The search for a delimiter reads an argument and the delimiter behind it. -/
theorem consumes_delimited {stop argument delimiter : List Token} (delimits : stop ≠ [])
    (plain : ∀ token ∈ stop, token.isBrace = false) (balanced : Token.Balanced argument)
    (same : Token.Match delimiter stop) (first : Delimits stop argument delimiter) (name : Text)
    (use : Token) (rest : List Token) :
    Consumes (delimited stop name use) (argument ++ delimiter) rest
      (some (Macro.stripBraces argument)) := by
  have quiet := Token.Match.plain same plain
  have length : delimiter.length = stop.length := List.Forall₂.length_eq same
  rcases delimiter.eq_nil_or_concat with rfl | ⟨front, last, rfl⟩
  · exact absurd (List.length_eq_zero_iff.mp length.symm) delimits
  rw [List.concat_eq_append] at *
  -- The delimiter fits nowhere before its last token is read.
  have goes : Goes (delimiterTest stop.reverse) ⟨0, [], none⟩ (argument ++ front)
      ⟨0, seenBehind (argument ++ front).reverse, none⟩ := by
    have start : Token.depthBehind 0 [] = some 0 := rfl
    refine goes_delimiterTest delimits plain start ?_ fun before matched after split outside
      found => ?_
    · rw [Token.depthBehind_append, balanced, Option.bind_some]
      exact Token.depthBehind_plain fun token member => quiet token (List.mem_append_left _ member)
    · have behind := first before matched (after ++ [last])
        (by rw [← List.append_assoc, ← List.append_assoc, ← split, List.nil_append]) outside found
      have size := congrArg List.length split
      have matchedLength : matched.length = stop.length := List.Forall₂.length_eq found
      simp only [List.length_append, List.length_singleton, List.nil_append] at size length
      omega
  have stops : delimiterTest stop.reverse ⟨0, seenBehind (argument ++ front).reverse, none⟩ last =
      (⟨0, seenBehind (argument ++ front ++ [last]).reverse, none⟩, true) := by
    have outside : Token.depthBehind 0 (argument ++ front) = some 0 := by
      rw [Token.depthBehind_append, balanced, Option.bind_some]
      exact Token.depthBehind_plain fun token member => quiet token (List.mem_append_left _ member)
    rw [delimiterTest_seenBehind outside
      (Token.depthBehind_other (quiet last (List.mem_append_right _ List.mem_cons_self)))]
    refine Prod.ext rfl ((endsWith_iff delimits plain).mpr ⟨argument, front ++ [last], ?_⟩)
    exact ⟨List.append_assoc .., balanced, same⟩
  have taken : (argument ++ front ++ [last]).take ((argument ++ front ++ [last]).length -
      stop.length) = argument := by
    rw [← length, List.append_assoc, List.length_append, Nat.add_sub_cancel_right, List.take_left]
  rw [← List.append_assoc]
  refine .readUntil goes stops fun stream => ?_
  simp only [reportExtra, delimitedArgument, pure_bind, taken]
  exact .pure _ _

/-- What stands in the place of one argument in the use of a macro, and the argument. -/
structure Supply where
  written : List Token
  argument : List Token

/-- An argument fits a parameter with a delimiter, possibly an empty one. Without a delimiter it
is a group. -/
inductive Supplies : (stop : List Token) → Supply → Prop where
  | group {opener closer : Token} {argument : List Token} (opens : opener.isBeginGroup = true)
      (closes : closer.isEndGroup = true) (balanced : Token.Balanced argument) :
      Supplies [] ⟨opener :: argument ++ [closer], argument⟩
  | delimited {stop argument delimiter bared : List Token} (delimits : stop ≠ [])
      (balanced : Token.Balanced argument) (same : Token.Match delimiter stop)
      (first : Delimits stop argument delimiter) (bares : Macro.Bared argument bared) :
      Supplies stop ⟨argument ++ delimiter, bared⟩

/-- What stands in the place of an argument is read as the argument of a parameter. -/
def Takes (name : Text) (use : Token) (parameter : Parameter) (supply : Supply) : Prop :=
  ∀ rest, Consumes (argument name use parameter) supply.written rest (some supply.argument)

theorem takes_of_supplies {stop : List Token} {supply : Supply}
    (plain : ∀ token ∈ stop, token.isBrace = false) (supplies : Supplies stop supply)
    (name : Text) (use : Token) : Takes name use (Macro.parameterBefore stop) supply := by
  intro rest
  cases supplies with
  | @group opener closer argument opens closes balanced =>
    have noEnd := Token.isEndGroup_of_isBeginGroup opens
    refine (consumes_nextSignificant (isSkipped_of_isBeginGroup opens false) _).bind ?_
    simpa [opens, noEnd] using consumes_closedGroup balanced closes rest
  | @delimited _ argument delimiter bared delimits balanced same first bares =>
    rw [Macro.parameterBefore, if_neg delimits,
      (Macro.bared_iff balanced).mp bares]
    exact consumes_delimited delimits plain balanced same first name use rest

theorem forall₂_takes {fits : List Token → Supply → Prop} {name : Text} {use : Token}
    (takes : ∀ {stop : List Token} {supply : Supply}, (∀ token ∈ stop, token.isBrace = false) →
      fits stop supply → Takes name use (Macro.parameterBefore stop) supply)
    {stops : List (List Token)} {supplies : List Supply}
    (plain : ∀ stop ∈ stops, ∀ token ∈ stop, token.isBrace = false)
    (supply : List.Forall₂ fits stops supplies) :
    List.Forall₂ (Takes name use) (stops.map Macro.parameterBefore) supplies := by
  induction supply with
  | nil => exact .nil
  | cons first _ ih =>
    rw [List.forall_mem_cons] at plain
    exact .cons (takes plain.1 first) (ih plain.2)

theorem consumes_arguments {parameters : List Parameter} {supplies : List Supply} {name : Text}
    {use : Token} (takes : List.Forall₂ (Takes name use) parameters supplies)
    (found : List (List Token)) (rest : List Token) :
    Consumes (arguments name use found parameters) (supplies.flatMap Supply.written) rest
      (.ok (found.reverse ++ supplies.map Supply.argument)) := by
  induction takes generalizing found with
  | nil =>
    rw [List.map_nil, List.append_nil]
    exact .pure _ _
  | @cons parameter supply parameters supplies first _ ih =>
    rw [List.flatMap_cons]
    refine (first _).bind ?_
    rw [List.map_cons, ← List.singleton_append, ← List.append_assoc, ← List.reverse_cons]
    exact ih (supply.argument :: found)

theorem consumes_literal {spelled expected : List Token} (same : Token.Match spelled expected)
    (rest : List Token) : Consumes (literal expected) spelled rest true := by
  induction same with
  | nil => exact .pure _ _
  | @cons token expected spelled others first _ ih =>
    rw [← List.singleton_append]
    refine (consumes_next token _).bind ?_
    dsimp only
    rw [if_pos first]
    exact ih

/-- A use of a macro is read to the last token of its last argument. -/
theorem consumes_invocation {definition : Macro} {use : Token} {spelled : List Token}
    {supplies : List Supply} (same : Token.Match spelled definition.literal)
    (takes : List.Forall₂ (Takes definition.name use) definition.parameters supplies)
    (rest : List Token) :
    Consumes (invocation definition use) (spelled ++ supplies.flatMap Supply.written) rest
      (.ok (supplies.map Supply.argument)) := by
  refine (consumes_literal same _).bind ?_
  rw [if_pos rfl]
  rw [← List.append_nil (supplies.flatMap Supply.written)]
  exact (consumes_arguments takes [] _).bind (.pure _ _)

end Scan

end Expansion

end TexSource
