import TexSource.Proofs.Document.BraceStack

/-!
# The depth of braces

Where a group ends is settled by the depth of the braces in it (`Token.depthBehind`): the braces
between its own match (`Token.Balanced`). A group that is read flat is read to this end.
-/

namespace TexSource

namespace Token

/-- The depth of braces behind tokens that are read at a depth, if no closing brace among them
lacks an opening one. -/
def depthBehind : (depth : Nat) → List Token → Option Nat
  | depth, [] => some depth
  | depth, token :: rest =>
    if token.isBeginGroup then depthBehind (depth + 1) rest
    else if token.isEndGroup then
      match depth with
      | 0 => none
      | outer + 1 => depthBehind outer rest
    else depthBehind depth rest

/-- Every brace among tokens has its counterpart among them. -/
def Balanced (tokens : List Token) : Prop :=
  depthBehind 0 tokens = some 0

instance (tokens : List Token) : Decidable (Balanced tokens) :=
  inferInstanceAs (Decidable (_ = _))

variable {depth : Nat} {token : Token} {tokens others rest : List Token}

@[simp] theorem depthBehind_nil : depthBehind depth [] = some depth := rfl

theorem depthBehind_beginGroup (opens : token.isBeginGroup = true) :
    depthBehind depth (token :: rest) = depthBehind (depth + 1) rest := by
  simp [depthBehind, opens]

theorem depthBehind_endGroup (closes : token.isEndGroup = true) :
    depthBehind (depth + 1) (token :: rest) = depthBehind depth rest := by
  simp [depthBehind, closes, Braces.isBeginGroup_of_isEndGroup closes]

theorem depthBehind_stray (closes : token.isEndGroup = true) :
    depthBehind 0 (token :: rest) = none := by
  simp [depthBehind, closes, Braces.isBeginGroup_of_isEndGroup closes]

theorem depthBehind_other (other : token.isBrace = false) :
    depthBehind depth (token :: rest) = depthBehind depth rest := by
  obtain ⟨opens, closes⟩ := isBrace_eq_false_iff.mp other
  simp [depthBehind, opens, closes]

theorem depthBehind_append :
    depthBehind depth (tokens ++ others) =
      (depthBehind depth tokens).bind (depthBehind · others) := by
  fun_induction depthBehind depth tokens with
  | case1 => rfl
  | case2 depth token rest opens ih => rw [List.cons_append, depthBehind_beginGroup opens, ih]
  | case3 token rest _ closes => rw [List.cons_append, depthBehind_stray closes]; rfl
  | case4 token rest _ closes outer ih => rw [List.cons_append, depthBehind_endGroup closes, ih]
  | case5 depth token rest opens closes ih =>
    rw [List.cons_append, depthBehind_other (by simp [isBrace, opens, closes]), ih]

/-- Braces are matched in the same way below an outer depth. -/
theorem depthBehind_add (outer : Nat) {behind : Nat}
    (found : depthBehind depth tokens = some behind) :
    depthBehind (depth + outer) tokens = some (behind + outer) := by
  fun_induction depthBehind depth tokens with
  | case1 => cases found; rfl
  | case2 depth token rest opens ih =>
    rw [depthBehind_beginGroup opens, Nat.add_right_comm]
    exact ih found
  | case3 => cases found
  | case4 token rest _ closes inner ih =>
    rw [Nat.succ_eq_add_one, Nat.add_right_comm, depthBehind_endGroup closes]
    exact ih found
  | case5 depth token rest opens closes ih =>
    rw [depthBehind_other (by simp [isBrace, opens, closes])]
    exact ih found

theorem isEndGroup_of_isBeginGroup (opens : token.isBeginGroup = true) :
    token.isEndGroup = false := by
  obtain ⟨glyph, kind⟩ := kind_of_isBeginGroup opens
  simp [isEndGroup, kind]

theorem isSpace_of_isBeginGroup (opens : token.isBeginGroup = true) : token.isSpace = false := by
  obtain ⟨glyph, kind⟩ := kind_of_isBeginGroup opens
  simp [isSpace, kind]

theorem isCharacter_of_isBeginGroup (opens : token.isBeginGroup = true) (character : Char) :
    token.isCharacter character = false := by
  obtain ⟨glyph, kind⟩ := kind_of_isBeginGroup opens
  simp [isCharacter, kind]

theorem depthBehind_plain (plain : ∀ token ∈ tokens, token.isBrace = false) :
    depthBehind depth tokens = some depth := by
  induction tokens with
  | nil => rfl
  | cons token rest ih =>
    rw [List.forall_mem_cons] at plain
    rw [depthBehind_other plain.1, ih plain.2]

protected theorem Balanced.depthBehind (balanced : Balanced tokens) :
    Token.depthBehind depth tokens = some depth := by
  have found := depthBehind_add depth balanced
  rwa [Nat.zero_add] at found

/-- Braces match in two texts, one behind the other, if they match in both. -/
theorem Balanced.append {others : List Token} (balanced : Balanced tokens)
    (later : Balanced others) : Balanced (tokens ++ others) := by
  rw [Balanced, depthBehind_append, balanced.depthBehind, Option.bind_some]
  exact later

end Token

namespace Parser

variable {depth : Nat} {rest : List Token}

/-- A group that is read flat ends behind braces that match. -/
theorem flatLength_of_depthBehind {label : List Token} {closer : Token}
    (found : Token.depthBehind depth label = some 0) (closes : closer.isEndGroup = true)
    (rest : List Token) : flatLength depth (label ++ closer :: rest) = label.length := by
  fun_induction Token.depthBehind depth label with
  | case1 =>
    cases found
    simp [flatLength, closes]
  | case2 depth token label opens ih =>
    simp [flatLength, opens, Token.isEndGroup_of_isBeginGroup opens, ih found]
  | case3 => cases found
  | case4 token label opens ends outer ih => simp [flatLength, ends, ih found]
  | case5 depth token label opens ends ih => simp [flatLength, opens, ends, ih found]

/-- A group that is read flat goes on where no closing brace lacks an opening one. -/
theorem drop_flatLength_of_depthBehind {label : List Token} {behind : Nat}
    (found : Token.depthBehind depth label = some behind) :
    label.drop (flatLength depth label) = [] := by
  fun_induction Token.depthBehind depth label with
  | case1 => rfl
  | case2 depth token label opens ih =>
    simp [flatLength, opens, Token.isEndGroup_of_isBeginGroup opens, ih found]
  | case3 => cases found
  | case4 token label opens ends outer ih => simp [flatLength, ends, ih found]
  | case5 depth token label opens ends ih => simp [flatLength, opens, ends, ih found]

/-- A group that is read flat ends at the first closing brace that has no opening one. -/
theorem exists_closer (closed : rest.drop (flatLength depth rest) ≠ []) :
    ∃ closer behind, rest.drop (flatLength depth rest) = closer :: behind ∧
      closer.isEndGroup = true ∧
      Token.depthBehind depth (rest.take (flatLength depth rest)) = some 0 := by
  fun_induction flatLength depth rest with
  | case1 => exact absurd rfl closed
  | case2 token rest ends => exact ⟨token, rest, rfl, ends, rfl⟩
  | case3 token rest ends outer ih =>
    obtain ⟨closer, behind, split, closes, found⟩ := ih closed
    exact ⟨closer, behind, split, closes, by
      rw [List.take_succ_cons, Token.depthBehind_endGroup ends, found]⟩
  | case4 depth token rest ends begins ih =>
    obtain ⟨closer, behind, split, closes, found⟩ := ih closed
    exact ⟨closer, behind, split, closes, by
      rw [List.take_succ_cons, Token.depthBehind_beginGroup begins, found]⟩
  | case5 depth token rest ends begins ih =>
    obtain ⟨closer, behind, split, closes, found⟩ := ih closed
    exact ⟨closer, behind, split, closes, by
      rw [List.take_succ_cons,
        Token.depthBehind_other (by simp [Token.isBrace, ends, begins]), found]⟩

/-- A group that is read flat to the last token has no closing brace without an opening one. -/
theorem exists_depthBehind (unclosed : rest.drop (flatLength depth rest) = []) :
    ∃ behind, Token.depthBehind depth rest = some behind := by
  fun_induction flatLength depth rest with
  | case1 depth => exact ⟨depth, rfl⟩
  | case2 => cases unclosed
  | case3 token rest ends outer ih =>
    rw [Token.depthBehind_endGroup ends]
    exact ih unclosed
  | case4 depth token rest ends begins ih =>
    rw [Token.depthBehind_beginGroup begins]
    exact ih unclosed
  | case5 depth token rest ends begins ih =>
    rw [Token.depthBehind_other (by simp [Token.isBrace, ends, begins])]
    exact ih unclosed

/-- Splitting math shifts moves no brace. -/
theorem Splits.flatLength {tokens others : List Token} (splits : Splits tokens others)
    (depth : Nat) :
    Splits (tokens.take (flatLength depth tokens)) (others.take (flatLength depth others)) ∧
      Splits (tokens.drop (flatLength depth tokens)) (others.drop (flatLength depth others)) := by
  induction splits generalizing depth with
  | nil => exact ⟨.nil, .nil⟩
  | @keep token tokens others later ih =>
    unfold Parser.flatLength
    split
    · cases depth with
      | zero => exact ⟨.nil, .keep token later⟩
      | succ outer => exact ⟨.keep token (ih outer).1, (ih outer).2⟩
    · split
      · exact ⟨.keep token (ih (depth + 1)).1, (ih (depth + 1)).2⟩
      · exact ⟨.keep token (ih depth).1, (ih depth).2⟩
  | @split token doubled tokens others later ih =>
    have whole : Parser.flatLength depth (token :: tokens) =
        Parser.flatLength depth tokens + 1 := by
      simp [Parser.flatLength, Token.isEndGroup, Token.isBeginGroup, doubled]
    have halves : Parser.flatLength depth
        ((splitShift token).1 :: (splitShift token).2 :: others) =
          Parser.flatLength depth others + 1 + 1 := by
      simp [Parser.flatLength, Token.isEndGroup, Token.isBeginGroup, splitShift]
    rw [whole, halves]
    exact ⟨.split doubled (ih depth).1, (ih depth).2⟩

end Parser

end TexSource
