import TexSource.Proofs.Document.Borders
import TexSource.Proofs.Squeezing

/-!
# The same tokens with other blanks

Two sequences of tokens may differ in their blanks alone (`Parser.Respaced`): between two tokens
there is nothing in both, or white space that belongs to the first of them, or spaces, or blanks
with a line end among them. Wherever the parser looks ahead from the same place in both of them, it
sees the same (`Parser.Abreast`): what is next behind spaces, where a flat group or a verbatim body
ends, and what an environment is called.
-/

namespace TexSource

namespace Token

/-- The text of a token without the white space at its end that belongs to it. -/
def core (token : Token) : Text :=
  match token.kind with
  | .comment _ => token.raw.stripEnd
  | _ => token.controlText

/-- A math shift has no blanks at its end. -/
theorem core_shift {token : Token} {doubled : Bool} (kind : token.kind = .mathShift doubled) :
    token.core = token.raw := by
  simp [core, controlText, kind]

/-- A token that is a blank, with a text of white space. -/
structure IsGap (token : Token) : Prop where
  blank : token.isBlank = true
  written : token.raw ≠ []
  white : ∀ glyph ∈ token.raw, glyph.isBlank = true

/-- A token that is no blank. Only white space belongs to it besides its core, and if it closes a
group it does not start with some. -/
structure IsSolid (token : Token) : Prop where
  solid : token.isBlank = false
  edged : ∃ blanks, token.raw = token.core ++ blanks ∧
    ∀ glyph ∈ blanks, glyph.isBlank = true
  closes : token.isEndGroup = true →
    ∃ glyph rest, token.raw = glyph :: rest ∧ glyph.isBlank = false

/-- A token that is no blank is no space. -/
theorem isSpace_of_solid {token : Token} (solid : token.isBlank = false) :
    token.isSpace = false := by
  by_contra space
  rw [isBlank_iff.mpr (.inl (Bool.not_eq_false _ ▸ space))] at solid
  cases solid

/-- Of the tokens with blanks, those that are blanks have nothing else. -/
theorem IsGap.of_isBlank {token : Token} (sorted : token.IsGap ∨ token.IsSolid)
    (blank : token.isBlank = true) : token.IsGap := by
  refine sorted.resolve_right fun solid => ?_
  rw [solid.solid] at blank
  cases blank

/-- The same token, with other white space at its end. -/
structure Same (token other : Token) : Prop where
  first : token.IsSolid
  second : other.IsSolid
  kind : other.kind.trimmed = token.kind.trimmed
  core : other.core = token.core

namespace Same

variable {token other : Token}

/-- What is the same but for blanks is so in both directions. -/
theorem symm (same : Same token other) : Same other token :=
  ⟨same.second, same.first, same.kind.symm, same.core.symm⟩

/-- Tokens that are the same but for blanks are of one kind, unless they are comments. -/
theorem kind_eq (same : Same token other) (code : token.isComment = false) :
    other.kind = token.kind := by
  have kind := same.kind
  cases first : token.kind with
  | comment => simp [Token.isComment, first] at code
  | _ =>
    rw [first] at kind
    cases second : other.kind <;> rw [second] at kind <;>
      simp_all [Token.Kind.trimmed]

theorem isComment (same : Same token other) : other.isComment = token.isComment := by
  have kind := same.kind
  cases first : token.kind <;> cases second : other.kind <;>
    simp_all [Token.Kind.trimmed, Token.isComment]

end Same

end Token

namespace Parser

/-- What stands between two tokens: nothing, white space that belongs to the first one, spaces, or
blanks with a line end among them. -/
inductive Gap where
  | nothing
  | owned
  | spaces
  | lineEnd
deriving DecidableEq

namespace Gap

/-- The gap directly behind a token. -/
def behind (token : Token) : Gap :=
  if token.raw = token.core then nothing else owned

/-- A gap with one more blank. -/
def past (gap : Gap) (blank : Token) : Gap :=
  if blank.isEndOfLine || gap = lineEnd then lineEnd else spaces

/-- A gap without blanks. -/
def IsTight (gap : Gap) : Prop :=
  gap = nothing ∨ gap = owned

/-- Directly behind a token there is no gap that blanks could be left out of. -/
theorem isTight_behind (token : Token) : (behind token).IsTight := by
  unfold behind
  split
  · exact .inl rfl
  · exact .inr rfl

/-- Behind a line end, further blanks make no difference. -/
theorem foldl_past_lineEnd (blanks : List Token) : blanks.foldl past lineEnd = lineEnd := by
  induction blanks with
  | nil => rfl
  | cons blank rest ih => simpa [past] using ih

/-- A gap with blanks tells whether a line end is among them. -/
theorem foldl_past {gap : Gap} (tight : gap.IsTight) {blanks : List Token} :
    blanks.foldl past gap =
      if blanks = [] then gap else if blanks.any Token.isEndOfLine then lineEnd else spaces := by
  have spaced : ∀ blanks : List Token, blanks.foldl past spaces =
      if blanks.any Token.isEndOfLine then lineEnd else spaces := by
    intro blanks
    induction blanks with
    | nil => rfl
    | cons blank rest ih =>
      cases ends : blank.isEndOfLine with
      | true => simp [past, ends, foldl_past_lineEnd]
      | false => simpa [past, ends] using ih
  cases blanks with
  | nil => rfl
  | cons blank rest =>
    have other : gap ≠ lineEnd := by
      rintro rfl
      rcases tight with same | same <;> cases same
    cases ends : blank.isEndOfLine with
    | true => simp [past, ends, foldl_past_lineEnd]
    | false => simp [past, ends, other, spaced]

/-- A gap with blanks in it is not tight. -/
theorem not_isTight_foldl_past {gap : Gap} (tight : gap.IsTight) {blanks : List Token}
    (present : blanks ≠ []) : ¬(blanks.foldl past gap).IsTight := by
  rw [foldl_past tight, if_neg present]
  split <;> rintro (same | same) <;> cases same

end Gap

/-- The same tokens with other blanks. What stands between two tokens is of the same kind in both
sequences. What stands before them may be given, and may differ at the start of a text; what stands
behind them may differ. -/
inductive Respaced : (gaps : Option (Gap × Gap)) → List Token → List Token →
    (ends : Option (Gap × Gap)) → Prop where
  | nil (gaps : Option (Gap × Gap)) : Respaced gaps [] [] gaps
  | token {gaps ends : Option (Gap × Gap)} {token other : Token} {tokens others : List Token}
      (fits : ∀ pair ∈ gaps, pair.1 = pair.2) (same : token.Same other)
      (later : Respaced (some (.behind token, .behind other)) tokens others ends) :
      Respaced gaps (token :: tokens) (other :: others) ends
  | left {gaps ends : Option (Gap × Gap)} {blank : Token} {tokens others : List Token}
      (gap : blank.IsGap)
      (later : Respaced (gaps.map fun pair => (pair.1.past blank, pair.2)) tokens others ends) :
      Respaced gaps (blank :: tokens) others ends
  | right {gaps ends : Option (Gap × Gap)} {blank : Token} {tokens others : List Token}
      (gap : blank.IsGap)
      (later : Respaced (gaps.map fun pair => (pair.1, pair.2.past blank)) tokens others ends) :
      Respaced gaps tokens (blank :: others) ends

namespace Respaced

variable {gaps ends : Option (Gap × Gap)} {tokens others : List Token}

/-- One sequence behind the other. -/
theorem append {rest later : List Token} {middle : Option (Gap × Gap)}
    (first : Respaced gaps tokens others middle) (second : Respaced middle rest later ends) :
    Respaced gaps (tokens ++ rest) (others ++ later) ends := by
  induction first with
  | nil => exact second
  | token fits same _ ih => exact .token fits same (ih second)
  | left gap _ ih => exact .left gap (ih second)
  | right gap _ ih => exact .right gap (ih second)

/-- Respacing can be undone. -/
theorem symm (respaced : Respaced gaps tokens others ends) :
    Respaced (gaps.map Prod.swap) others tokens (ends.map Prod.swap) := by
  induction respaced with
  | nil => exact .nil _
  | token fits same _ ih =>
    refine .token (fun pair present => ?_) same.symm ih
    obtain ⟨swapped, found, rfl⟩ := Option.map_eq_some_iff.mp present
    exact (fits swapped found).symm
  | left gap _ ih => exact .right gap (by simpa [Function.comp_def] using ih)
  | right gap _ ih => exact .left gap (by simpa [Function.comp_def] using ih)

/-- A blank in front can be left out. -/
theorem of_cons_blank {blank : Token} (respaced : Respaced gaps (blank :: tokens) others ends)
    (isBlank : blank.isBlank = true) :
    Respaced (gaps.map fun pair => (pair.1.past blank, pair.2)) tokens others ends := by
  generalize whole : blank :: tokens = front at respaced
  induction respaced with
  | nil => cases whole
  | token _ same _ =>
    cases whole
    rw [same.first.solid] at isBlank
    cases isBlank
  | left _ later =>
    cases whole
    exact later
  | right gap _ ih => exact .right gap (by simpa [Function.comp_def] using ih whole)

/-- Blanks in front can be left out. -/
theorem of_append_blanks {blanks : List Token} (respaced : Respaced gaps (blanks ++ tokens) others
    ends)
    (isBlank : ∀ blank ∈ blanks, blank.isBlank = true) :
    Respaced (gaps.map fun pair => (blanks.foldl Gap.past pair.1, pair.2)) tokens others ends := by
  induction blanks generalizing gaps with
  | nil => simpa using respaced
  | cons blank rest ih =>
    rw [List.forall_mem_cons] at isBlank
    simpa [Function.comp_def] using ih (respaced.of_cons_blank isBlank.1) isBlank.2

/-- A token in front stands behind blanks in the other sequence. -/
theorem exists_of_cons {token : Token} (respaced : Respaced gaps (token :: tokens) others ends)
    (solid : token.isBlank = false) :
    ∃ blanks other later, others = blanks ++ other :: later ∧
      (∀ blank ∈ blanks, blank.isBlank = true) ∧ token.Same other ∧
      (∀ pair ∈ gaps, pair.1 = blanks.foldl Gap.past pair.2) ∧
      Respaced (some (.behind token, .behind other)) tokens later ends := by
  generalize whole : token :: tokens = front at respaced
  induction respaced with
  | nil => cases whole
  | token fits same later =>
    cases whole
    exact ⟨[], _, _, rfl, List.forall_mem_nil _, same, fits, later⟩
  | left gap =>
    cases whole
    rw [gap.blank] at solid
    cases solid
  | right gap _ ih =>
    obtain ⟨blanks, other, later, rfl, isBlank, same, fits, rest⟩ := ih whole
    refine ⟨_ :: blanks, other, later, rfl,
      List.forall_mem_cons.mpr ⟨gap.blank, isBlank⟩, same, fun pair present => ?_, rest⟩
    exact fits (pair.1, pair.2.past _) (by simp [Option.mem_def.mp present])

/-- Where no tokens are, the other sequence has only blanks. -/
theorem isBlank_of_nil (respaced : Respaced gaps [] others ends) :
    ∀ blank ∈ others, blank.isBlank = true := by
  generalize whole : [] = front at respaced
  induction respaced with
  | nil => exact List.forall_mem_nil _
  | token | left => cases whole
  | right gap _ ih => exact List.forall_mem_cons.mpr ⟨gap.blank, ih whole⟩

end Respaced

/-- Sequences with other blanks, behind tokens that are no blanks. -/
def Abreast (tokens others : List Token) : Prop :=
  ∃ (gap other : Gap) (ends : Option (Gap × Gap)), gap.IsTight ∧ other.IsTight ∧
    Respaced (some (gap, other)) tokens others ends

/-- Sequences with other blanks, directly behind two tokens. -/
def Follow (token other : Token) (tokens others : List Token) : Prop :=
  ∃ ends, Respaced (some (.behind token, .behind other)) tokens others ends

/-- Texts that follow on tokens that are the same but for blanks stand abreast. -/
theorem Follow.abreast {token other : Token} {tokens others : List Token}
    (follow : Follow token other tokens others) : Abreast tokens others := by
  obtain ⟨ends, later⟩ := follow
  exact ⟨_, _, _, Gap.isTight_behind token, Gap.isTight_behind other, later⟩

/-- With two tokens that are the same in front. -/
theorem Follow.cons {token other : Token} {tokens others : List Token}
    (follow : Follow token other tokens others) (same : token.Same other) :
    Abreast (token :: tokens) (other :: others) := by
  obtain ⟨ends, later⟩ := follow
  exact ⟨.nothing, .nothing, ends, .inl rfl, .inl rfl, .token (by simp) same later⟩

theorem Abreast.nil : Abreast [] [] :=
  ⟨.nothing, .nothing, _, .inl rfl, .inl rfl, .nil _⟩

namespace Abreast

variable {tokens others : List Token}

/-- Texts that stand abreast are respaced, whatever the gaps at their ends. -/
theorem respaced (abreast : Abreast tokens others) :
    ∃ gaps ends, Respaced gaps tokens others ends := by
  obtain ⟨_, _, _, -, -, respaced⟩ := abreast
  exact ⟨_, _, respaced⟩

/-- Texts stand abreast of each other. -/
theorem symm (abreast : Abreast tokens others) : Abreast others tokens := by
  obtain ⟨gap, other, ends, tight, also, respaced⟩ := abreast
  exact ⟨other, gap, _, also, tight, respaced.symm⟩

/-- Behind spaces stand the same tokens. -/
theorem exists_of_dropSpaces (abreast : Abreast tokens others) {token : Token} {rest : List Token}
    (stands : tokens.dropWhile Token.isSpace = token :: rest) (solid : token.isBlank = false) :
    ∃ other later, others.dropWhile Token.isSpace = other :: later ∧ token.Same other ∧
      Follow token other rest later := by
  obtain ⟨gap, otherGap, ends, tight, also, respaced⟩ := abreast
  have split := List.takeWhile_append_dropWhile (p := Token.isSpace) (l := tokens)
  have spaces : ∀ blank ∈ tokens.takeWhile Token.isSpace, blank.isSpace = true :=
    fun blank member => List.mem_takeWhile_imp member
  generalize tokens.takeWhile Token.isSpace = blanks at split spaces
  rw [← split, stands] at respaced
  obtain ⟨passed, other, later, rfl, isBlank, same, fits, rest⟩ :=
    (respaced.of_append_blanks fun blank member => Token.isBlank_iff.mpr
      (.inl (spaces blank member))).exists_of_cons solid
  have equal : blanks.foldl Gap.past gap = passed.foldl Gap.past otherGap := fits _ rfl
  rw [Gap.foldl_past tight, Gap.foldl_past also] at equal
  have noLineEnd : blanks.any Token.isEndOfLine = false := by
    simp only [List.any_eq_false]
    intro blank member ends
    have space := spaces blank member
    simp only [Token.isSpace, Token.isEndOfLine, decide_eq_true_eq] at space ends
    rw [space] at ends
    cases ends
  have passedSpaces : ∀ blank ∈ passed, blank.isSpace = true := by
    have inline : passed.any Token.isEndOfLine = false := by
      by_contra ends
      rw [Bool.not_eq_false] at ends
      have present : passed ≠ [] := by
        rintro rfl
        cases ends
      rw [if_neg present, if_pos ends, noLineEnd] at equal
      split at equal
      · rw [equal] at tight
        rcases tight with same | same <;> cases same
      · cases equal
    intro blank member
    refine (Token.isBlank_iff.mp (isBlank blank member)).resolve_right fun ends => ?_
    exact absurd (List.any_eq_true.mpr ⟨blank, member, ends⟩) (by simp [inline])
  have solidOther : other.isSpace = false := by
    by_contra space
    rw [Bool.not_eq_false] at space
    have blank := Token.isBlank_iff.mpr (.inl space)
    rw [same.second.solid] at blank
    cases blank
  refine ⟨other, later, ?_, same, _, rest⟩
  rw [List.dropWhile_append_of_pos passedSpaces, List.dropWhile_cons_of_neg (by simp [solidOther])]

/-- At the front stand the same tokens. -/
theorem exists_of_cons {token : Token} (abreast : Abreast (token :: tokens) others)
    (solid : token.isBlank = false) :
    ∃ other later, others = other :: later ∧ token.Same other ∧
      Follow token other tokens later := by
  obtain ⟨gap, otherGap, ends, tight, also, respaced⟩ := abreast
  obtain ⟨passed, other, later, rfl, isBlank, same, fits, rest⟩ := respaced.exists_of_cons solid
  have nothing : passed = [] := by
    by_contra present
    refine Gap.not_isTight_foldl_past also present ?_
    rw [← fits _ rfl]
    exact tight
  subst nothing
  exact ⟨other, later, rfl, same, _, rest⟩

end Abreast

/-- A test that no blank passes, and that does not see the white space at the end of a token. -/
structure Discerns (test : Token → Bool) : Prop where
  solid : ∀ token, token.isBlank = true → test token = false
  same : ∀ token other, token.Same other → test other = test token

namespace Discerns

/-- A test of the kind that no blank and no comment passes. -/
theorem of_kind {test : Token → Bool}
    (kinds : ∀ token other : Token, other.kind = token.kind → test other = test token)
    (solid : ∀ token, test token = true → token.isBlank = false ∧ token.isComment = false) :
    Discerns test where
  solid token blank := by
    by_contra passes
    rw [(solid token (Bool.not_eq_false _ ▸ passes)).1] at blank
    cases blank
  same token other same := by
    cases code : token.isComment with
    | false => exact kinds token other (same.kind_eq code)
    | true =>
      have unseen : ∀ token : Token, token.isComment = true → test token = false := by
        intro token comment
        by_contra passes
        rw [(solid token (Bool.not_eq_false _ ▸ passes)).2] at comment
        cases comment
      rw [unseen token code, unseen other (same.isComment.trans code)]

theorem isBeginGroup : Discerns Token.isBeginGroup :=
  of_kind (fun _ _ kind => by rw [Token.isBeginGroup, Token.isBeginGroup, kind])
    fun token opens => by
      cases kind : token.kind <;>
        simp_all [Token.isBeginGroup, Token.isBlank, Token.isComment, Token.Kind.isBlank]

theorem isEndGroup : Discerns Token.isEndGroup :=
  of_kind (fun _ _ kind => by rw [Token.isEndGroup, Token.isEndGroup, kind])
    fun token ends => by
      cases kind : token.kind <;>
        simp_all [Token.isEndGroup, Token.isBlank, Token.isComment, Token.Kind.isBlank]

theorem isCharacter (character : Char) : Discerns (Token.isCharacter · character) :=
  of_kind (fun _ _ kind => by rw [Token.isCharacter, Token.isCharacter, kind])
    fun token is => by
      cases kind : token.kind <;>
        simp_all [Token.isCharacter, Token.isBlank, Token.isComment, Token.Kind.isBlank]

theorem isControlWord (name : Text) : Discerns (Token.isControlWord · name) :=
  of_kind (fun _ _ kind => by rw [Token.isControlWord, Token.isControlWord, kind])
    fun token word => by
      cases kind : token.kind <;>
        simp_all [Token.isControlWord, Token.isBlank, Token.isComment, Token.Kind.isBlank]

theorem isControlSequence : Discerns Token.isControlSequence :=
  of_kind (fun _ _ kind => by rw [Token.isControlSequence, Token.isControlSequence, kind])
    fun token sequence => by
      cases kind : token.kind <;>
        simp_all [Token.isControlSequence, Token.isBlank, Token.isComment, Token.Kind.isBlank]

theorem isMathShift : Discerns Token.isMathShift :=
  of_kind (fun _ _ kind => by rw [Token.isMathShift, Token.isMathShift, kind])
    fun token shift => by
      cases kind : token.kind <;>
        simp_all [Token.isMathShift, Token.isBlank, Token.isComment, Token.Kind.isBlank]

/-- A test for one kind. -/
theorem kind_eq {kind : Token.Kind} (solid : kind.isBlank = false)
    (code : ∀ content, kind ≠ .comment content) :
    Discerns fun token => decide (token.kind = kind) :=
  of_kind (fun _ _ same => by rw [same]) fun token is => by
    have same : token.kind = kind := of_decide_eq_true is
    refine ⟨by rw [Token.isBlank, same, solid], ?_⟩
    by_contra comment
    obtain ⟨content, also⟩ := Token.kind_of_isComment (Bool.not_eq_false _ ▸ comment)
    exact code content (same.symm.trans also)

theorem controlSymbol (glyph : Option Glyph) :
    Discerns fun token => decide (token.kind = .controlSymbol glyph) :=
  kind_eq rfl fun _ same => by cases same

/-- A test under a condition is blind to blanks if the test is. -/
theorem const_and {test : Token → Bool} (discerns : Discerns test) (condition : Bool) :
    Discerns fun token => condition && test token where
  solid token blank := by rw [discerns.solid token blank, Bool.and_false]
  same token other same := by rw [discerns.same token other same]

/-- One of two tests passes alike if both do. -/
theorem or {test also : Token → Bool} (discerns : Discerns test) (second : Discerns also) :
    Discerns fun token => test token || also token where
  solid token blank := by rw [discerns.solid token blank, second.solid token blank]; rfl
  same token other same := by rw [discerns.same token other same, second.same token other same]

/-- A formula is opened by the same token. -/
theorem opensMath : Discerns opensMath :=
  (isMathShift.or (controlSymbol (some (.char '(')))).or (controlSymbol (some (.char '[')))

/-- A construct is closed by the same token. -/
theorem isAt (closing : Closing) : Discerns closing.isAt := by
  cases closing with
  | never => exact ⟨fun _ _ => rfl, fun _ _ _ => rfl⟩
  | bracket => exact isCharacter ']'
  | shift => exact isMathShift
  | displayShift => exact kind_eq rfl fun _ same => by cases same
  | symbol glyph => exact controlSymbol (some glyph)

/-- A token that passes the test is no blank. -/
theorem isBlank_eq_false {test : Token → Bool} (discerns : Discerns test) {token : Token}
    (passes : test token = true) : token.isBlank = false := by
  cases blank : token.isBlank with
  | false => rfl
  | true => rw [discerns.solid token blank] at passes; cases passes

end Discerns

theorem discerns_endsBefore (closing : Closing) (mode : Mode) :
    Discerns (endsBefore closing mode) :=
  ((Discerns.isEndGroup.const_and mode.inGroup).or
    ((Discerns.isControlWord "end").const_and mode.inEnvironment)).or (.isAt closing)

/-- What stands behind the spaces ahead. -/
theorem drop_spacesAhead (tokens : List Token) :
    tokens.drop (spacesAhead tokens) = tokens.dropWhile Token.isSpace := by
  have whole := List.takeWhile_append_dropWhile (p := Token.isSpace) (l := tokens)
  calc tokens.drop (spacesAhead tokens)
      _ = (tokens.takeWhile Token.isSpace ++ tokens.dropWhile Token.isSpace).drop
            (tokens.takeWhile Token.isSpace).length := by rw [whole]; rfl
      _ = tokens.dropWhile Token.isSpace := List.drop_left

namespace Abreast

variable {tokens others : List Token}

/-- A token behind spaces that passes a test has its counterpart behind the spaces on the other
side. -/
theorem exists_of_any_dropSpaces (abreast : Abreast tokens others) {test : Token → Bool}
    (discerns : Discerns test) (passes : (tokens.dropWhile Token.isSpace).head?.any test = true) :
    ∃ token rest other later, tokens.dropWhile Token.isSpace = token :: rest ∧
      others.dropWhile Token.isSpace = other :: later ∧ test token = true ∧ token.Same other ∧
        Follow token other rest later := by
  cases stands : tokens.dropWhile Token.isSpace with
  | nil => simp [stands] at passes
  | cons token rest =>
    have passed : test token = true := by simpa [stands] using passes
    obtain ⟨other, later, also, same, behind⟩ :=
      abreast.exists_of_dropSpaces stands (discerns.isBlank_eq_false passed)
    exact ⟨token, rest, other, later, rfl, also, passed, same, behind⟩

/-- **Behind spaces.** What passes a test behind spaces does so in both sequences. -/
theorem any_dropSpaces (abreast : Abreast tokens others) {test : Token → Bool}
    (discerns : Discerns test) : (others.dropWhile Token.isSpace).head?.any test =
      (tokens.dropWhile Token.isSpace).head?.any test := by
  have passes : ∀ {tokens others : List Token}, Abreast tokens others →
      (tokens.dropWhile Token.isSpace).head?.any test = true →
        (others.dropWhile Token.isSpace).head?.any test = true := by
    intro tokens others abreast passes
    obtain ⟨token, rest, other, later, -, also, passed, same, -⟩ :=
      abreast.exists_of_any_dropSpaces discerns passes
    simpa [also, discerns.same token other same] using passed
  exact Bool.eq_iff_iff.mpr ⟨passes abreast.symm, passes abreast⟩

theorem any_head (abreast : Abreast tokens others) {test : Token → Bool}
    (discerns : Discerns test) : others.head?.any test = tokens.head?.any test := by
  have passes : ∀ {tokens others : List Token}, Abreast tokens others →
      tokens.head?.any test = true → others.head?.any test = true := by
    intro tokens others abreast passes
    cases tokens with
    | nil => cases passes
    | cons token rest =>
      have passed : test token = true := by simpa using passes
      obtain ⟨other, later, rfl, same, -⟩ :=
        abreast.exists_of_cons (discerns.isBlank_eq_false passed)
      simpa [discerns.same token other same] using passed
  exact Bool.eq_iff_iff.mpr ⟨passes abreast.symm, passes abreast⟩

/-- What is taken is the same token in both sequences. -/
theorem takes (abreast : Abreast tokens others) {test : Token → Bool} (discerns : Discerns test)
    {taken other : Option Placed} {after later : List Token}
    (first : Takes test tokens taken after) (second : Takes test others other later) :
    Option.Rel (fun placed other => placed.token.Same other.token) taken other ∧
      Abreast after later := by
  have same := abreast.any_head discerns
  cases first with
  | taken passes =>
    obtain ⟨next, behind, rfl, alike, rest⟩ :=
      abreast.exists_of_cons (discerns.isBlank_eq_false passes)
    cases second with
    | taken => exact ⟨.some alike, rest.abreast⟩
    | left fails =>
      rw [fails] at same
      simp [passes] at same
  | left fails =>
    cases second with
    | taken passes =>
      rw [fails] at same
      simp [passes] at same
    | left => exact ⟨.none, abreast⟩

end Abreast

/-- In front of a token that is neither a comment nor a line end, the tokens skipped before an
argument are spaces. -/
theorem gapAhead_eq_spacesAhead (lineEndSeen : Bool) {tokens : List Token}
    (stops : ∀ token ∈ (tokens.dropWhile Token.isSpace).head?,
      token.isComment = false ∧ token.isEndOfLine = false) :
    gapAhead lineEndSeen tokens = spacesAhead tokens := by
  induction tokens with
  | nil => rfl
  | cons token rest ih =>
    rw [gapAhead.eq_def]
    cases space : token.isSpace with
    | true =>
      rw [List.dropWhile_cons_of_pos space] at stops
      simp [spacesAhead, space, ih stops]
    | false =>
      rw [List.dropWhile_cons_of_neg (by simp [space])] at stops
      obtain ⟨code, inline⟩ := stops token rfl
      simp [spacesAhead, space, code, inline]

/-- A gap in front of a squeezed text. -/
def Gap.onto (gap : Gap) (text : Text) : Text :=
  if gap = nothing then text else Text.squeezeOnto (.char ' ') text

/-- A token squeezes onto a text as its text without the blanks at its end, and the gap behind it.
-/
theorem Gap.onto_behind {token : Token} (solid : token.IsSolid) (text : Text) :
    token.raw.foldr Text.squeezeOnto text =
      token.core.foldr Text.squeezeOnto ((behind token).onto text) := by
  obtain ⟨blanks, written, white⟩ := solid.edged
  rw [onto, behind]
  by_cases bare : token.raw = token.core
  · rw [if_pos bare, if_pos rfl, bare]
  · have present : blanks ≠ [] := by
      rintro rfl
      exact bare (by simpa using written)
    rw [if_neg bare, if_neg (by decide)]
    conv_lhs => rw [written, List.foldr_append, Text.foldr_squeezeOnto_blanks present white]

/-- A blank that stands in a gap becomes a part of it. -/
theorem Gap.onto_past (gap : Gap) {blank : Token} (isGap : blank.IsGap) (text : Text) :
    gap.onto (Text.squeeze (blank.raw ++ text)) = (gap.past blank).onto (Text.squeeze text) := by
  have other : gap.past blank ≠ nothing := by
    unfold past
    split <;> decide
  rw [Text.squeeze_append, Text.foldr_squeezeOnto_blanks isGap.written isGap.white, onto, onto,
    if_neg other]
  split
  · rfl
  · rw [Text.squeezeOnto_twice]

/-- **Texts.** Sequences that differ in blanks are squeezed alike. -/
theorem Respaced.squeeze_eq {gap otherGap : Gap} {ends : Option (Gap × Gap)}
    {tokens others : List Token} (respaced : Respaced (some (gap, otherGap)) tokens others ends) :
    gap.onto (Token.rawText tokens).squeeze = otherGap.onto (Token.rawText others).squeeze := by
  generalize start : some (gap, otherGap) = gaps at respaced
  induction respaced generalizing gap otherGap with
  | nil =>
    unfold Gap.onto
    split <;> split <;> rfl
  | @token _ _ token other _ _ fits same _ ih =>
    have equal : gap = otherGap := fits _ start.symm
    rw [Token.rawText_cons, Token.rawText_cons, Text.squeeze_append, Text.squeeze_append,
      Gap.onto_behind same.first, Gap.onto_behind same.second, ih rfl, same.core, equal]
  | left isGap _ ih =>
    rw [Token.rawText_cons, Gap.onto_past _ isGap]
    exact ih (by rw [← start]; rfl)
  | right isGap _ ih =>
    rw [Token.rawText_cons, Gap.onto_past _ isGap]
    exact ih (by rw [← start]; rfl)

/-- What is in front of a closing brace or of the end is the same name. -/
theorem Respaced.sameName {ends : Option (Gap × Gap)} {tokens others behind later : List Token}
    (respaced : Respaced (some (.nothing, .nothing)) tokens others ends)
    (abreast : Abreast behind later) {inner innerOther : Text}
    (split : Token.rawText tokens = inner ++ Token.rawText behind)
    (splitOther : Token.rawText others = innerOther ++ Token.rawText later)
    (closes : ∀ token ∈ behind.head?, token.isEndGroup = true)
    (also : ∀ token ∈ later.head?, token.isEndGroup = true) :
    Text.SameName inner.strip innerOther.strip := by
  have whole := respaced.squeeze_eq
  simp only [Gap.onto, ↓reduceIte, split, splitOther] at whole
  refine Text.sameName_of_squeeze ?_
  cases behind with
  | nil =>
    cases later with
    | nil => simpa using whole
    | cons token later =>
      obtain ⟨_, _, respaced⟩ := abreast.respaced
      have blank := respaced.isBlank_of_nil token List.mem_cons_self
      rw [Token.isBlank_of_isEndGroup (also token rfl)] at blank
      cases blank
  | cons token behind =>
    have solid := Token.isBlank_of_isEndGroup (closes token rfl)
    obtain ⟨other, others, rfl, same, _, rest⟩ := abreast.exists_of_cons solid
    have tail : Respaced (some (.nothing, .nothing)) (token :: behind) (other :: others) _ :=
      .token (by simp) same rest
    have squeezed := tail.squeeze_eq
    simp only [Gap.onto, ↓reduceIte] at squeezed
    obtain ⟨glyph, raw, first, front⟩ := same.first.closes (closes token rfl)
    obtain ⟨next, rawOther, second, frontOther⟩ := same.second.closes (also other rfl)
    refine Text.squeeze_eq_of_append whole squeezed ?_ ?_
    · simp [first, front]
    · simp [second, frontOther]

/-- Nothing stands in the gap directly behind a brace. -/
theorem behind_of_isBeginGroup {token : Token} (opens : token.isBeginGroup = true) :
    Gap.behind token = .nothing := by
  unfold Token.isBeginGroup at opens
  split at opens
  · simp [Gap.behind, Token.core, Token.controlText, *]
  · cases opens

/-- Up to the next closing brace, and from it on. -/
theorem Respaced.dropWhile_notEndGroup {gaps ends : Option (Gap × Gap)}
    {tokens others : List Token} (respaced : Respaced gaps tokens others ends) :
    Abreast (tokens.dropWhile fun token => !token.isEndGroup)
      (others.dropWhile fun token => !token.isEndGroup) := by
  induction respaced with
  | nil => exact .nil
  | token fits same later ih =>
    rename_i token other tokens others
    have also := Discerns.isEndGroup.same token other same
    cases closes : token.isEndGroup with
    | true =>
      rw [List.dropWhile_cons_of_neg (by simp [closes]),
        List.dropWhile_cons_of_neg (by simp [also, closes])]
      exact Follow.cons ⟨_, later⟩ same
    | false =>
      rw [List.dropWhile_cons_of_pos (by simp [closes]),
        List.dropWhile_cons_of_pos (by simp [also, closes])]
      exact ih
  | left gap _ ih =>
    rw [List.dropWhile_cons_of_pos (by simp [Discerns.isEndGroup.solid _ gap.blank])]
    exact ih
  | right gap _ ih =>
    rw [List.dropWhile_cons_of_pos (by simp [Discerns.isEndGroup.solid _ gap.blank])]
    exact ih

/-- **Ends.** The `\end` of an environment is seen in both sequences. -/
theorem Abreast.startsWithEnd_eq {tokens others : List Token} (abreast : Abreast tokens others)
    {name : Text} (whole : name.IsWhole) :
    startsWithEnd name others = startsWithEnd name tokens := by
  have passes : ∀ {tokens others : List Token}, Abreast tokens others →
      startsWithEnd name tokens = true → startsWithEnd name others = true := by
    intro tokens others abreast passes
    cases tokens with
    | nil => cases passes
    | cons token rest =>
      obtain ⟨word, behind⟩ := Bool.and_eq_true_iff.mp passes
      have solid := (Discerns.isControlWord "end").isBlank_eq_false word
      obtain ⟨other, later, rfl, same, follow⟩ := abreast.exists_of_cons solid
      have braced : (rest.dropWhile Token.isSpace).head?.any Token.isBeginGroup = true := by
        cases stands : rest.dropWhile Token.isSpace <;> simp_all
      obtain ⟨brace, inner, otherBrace, innerOther, stands, standsOther, opens, sameBrace, _,
          inside⟩ := follow.abreast.exists_of_any_dropSpaces .isBeginGroup braced
      rw [behind_of_isBeginGroup opens, behind_of_isBeginGroup
        ((Discerns.isBeginGroup.same _ _ sameBrace).trans opens)] at inside
      have head : ∀ tokens : List Token,
          ∀ token ∈ (tokens.dropWhile fun token => !token.isEndGroup).head?,
            token.isEndGroup = true := fun tokens token first => by
        have stops := List.head?_dropWhile_not (fun token => !Token.isEndGroup token) tokens
        rw [Option.mem_def.mp first] at stops
        simpa using stops
      have split : ∀ tokens : List Token, Token.rawText tokens =
          Token.rawText (tokens.takeWhile fun token => !token.isEndGroup) ++
            Token.rawText (tokens.dropWhile fun token => !token.isEndGroup) := fun tokens => by
        rw [← Token.rawText_append, List.takeWhile_append_dropWhile]
      have named := inside.sameName inside.dropWhile_notEndGroup (split inner) (split innerOther)
        (head inner) (head innerOther) name whole
      have called :
          (Token.rawText (inner.takeWhile fun token => !token.isEndGroup)).strip = name := by
        rw [stands] at behind
        exact of_decide_eq_true (Bool.and_eq_true_iff.mp behind).2
      simp [startsWithEnd, standsOther, (Discerns.isControlWord "end").same token other same, word,
        Discerns.isBeginGroup.same _ _ sameBrace, opens, named.mp called]
  exact Bool.eq_iff_iff.mpr ⟨passes abreast.symm, passes abreast⟩

/-- A blank is one more token of a flat group. -/
theorem flatLength_blank (depth : Nat) {blank : Token} (isBlank : blank.isBlank = true)
    (rest : List Token) : flatLength depth (blank :: rest) = flatLength depth rest + 1 := by
  simp [flatLength.eq_def depth (blank :: rest), Discerns.isEndGroup.solid _ isBlank,
    Discerns.isBeginGroup.solid _ isBlank]

/-- **Flat groups** end at the same token. -/
theorem Respaced.flat {gaps ends : Option (Gap × Gap)} {tokens others : List Token}
    (respaced : Respaced gaps tokens others ends) (depth : Nat) :
    (∃ cut, Respaced gaps (tokens.take (flatLength depth tokens))
      (others.take (flatLength depth others)) cut) ∧
      Abreast (tokens.drop (flatLength depth tokens)) (others.drop (flatLength depth others)) := by
  induction respaced generalizing depth with
  | nil => exact ⟨⟨_, .nil _⟩, .nil⟩
  | @token _ _ token other _ _ fits same later ih =>
    have opens := Discerns.isBeginGroup.same token other same
    have ends := Discerns.isEndGroup.same token other same
    rw [flatLength.eq_def depth (token :: _), flatLength.eq_def depth (other :: _)]
    dsimp only
    rw [opens, ends]
    split
    · cases depth with
      | zero => exact ⟨⟨_, .nil _⟩, Follow.cons ⟨_, later⟩ same⟩
      | succ outer => exact (ih outer).imp_left (Exists.imp fun _ => .token fits same)
    · split
      · exact (ih (depth + 1)).imp_left (Exists.imp fun _ => .token fits same)
      · exact (ih depth).imp_left (Exists.imp fun _ => .token fits same)
  | left gap _ ih =>
    rw [flatLength_blank depth gap.blank]
    exact (ih depth).imp_left (Exists.imp fun _ => .left gap)
  | right gap _ ih =>
    rw [flatLength_blank depth gap.blank]
    exact (ih depth).imp_left (Exists.imp fun _ => .right gap)

/-- No end of an environment starts with a blank. -/
theorem startsWithEnd_blank (name : Text) {blank : Token} (isBlank : blank.isBlank = true)
    (rest : List Token) : startsWithEnd name (blank :: rest) = false := by
  simp [startsWithEnd, (Discerns.isControlWord "end").solid _ isBlank]

/-- A blank is one more token of a verbatim body. -/
theorem verbatimLength_blank (name : Text) {blank : Token} (isBlank : blank.isBlank = true)
    (rest : List Token) : verbatimLength name (blank :: rest) = verbatimLength name rest + 1 := by
  rw [verbatimLength, startsWithEnd_blank name isBlank, if_neg Bool.false_ne_true]

/-- **Verbatim bodies** end at the same token. -/
theorem Respaced.verbatim {gaps ends : Option (Gap × Gap)} {tokens others : List Token}
    (respaced : Respaced gaps tokens others ends) {name : Text} (whole : name.IsWhole) :
    (∃ cut, Respaced gaps (tokens.take (verbatimLength name tokens))
      (others.take (verbatimLength name others)) cut) ∧
      Abreast (tokens.drop (verbatimLength name tokens))
        (others.drop (verbatimLength name others)) := by
  induction respaced with
  | nil => exact ⟨⟨_, .nil _⟩, .nil⟩
  | @token _ _ token other _ _ fits same later ih =>
    have abreast := Follow.cons ⟨_, later⟩ same
    rw [verbatimLength, verbatimLength, abreast.startsWithEnd_eq whole]
    split
    · exact ⟨⟨_, .nil _⟩, abreast⟩
    · exact ih.imp_left (Exists.imp fun _ => .token fits same)
  | left gap _ ih =>
    rw [verbatimLength_blank name gap.blank]
    exact ih.imp_left (Exists.imp fun _ => .left gap)
  | right gap _ ih =>
    rw [verbatimLength_blank name gap.blank]
    exact ih.imp_left (Exists.imp fun _ => .right gap)

theorem isSolid_shift {token : Token} {doubled : Bool} (kind : token.kind = .mathShift doubled) :
    token.IsSolid where
  solid := by simp [Token.isBlank, kind, Token.Kind.isBlank]
  edged := ⟨[], by simp [Token.core_shift kind]⟩
  closes ends := by simp [Token.isEndGroup, kind] at ends

/-- Math shifts of one kind with one text are the same. -/
theorem same_shift {token other : Token} {doubled : Bool} (kind : token.kind = .mathShift doubled)
    (also : other.kind = .mathShift doubled) (raw : other.raw = token.raw) : token.Same other :=
  ⟨isSolid_shift kind, isSolid_shift also, by rw [kind, also],
    by rw [Token.core_shift kind, Token.core_shift also, raw]⟩

/-- Nothing stands in the gap directly behind a math shift. -/
theorem behind_shift {token : Token} {doubled : Bool} (kind : token.kind = .mathShift doubled) :
    Gap.behind token = .nothing := by
  rw [Gap.behind, if_pos (Token.core_shift kind).symm]

/-- A doubled math shift is split in both sequences. -/
theorem Abreast.ahead {tokens others : List Token} (abreast : Abreast tokens others)
    (closing : Closing) : Abreast (closing.ahead tokens) (closing.ahead others) := by
  unfold Closing.ahead
  split
  · have doubled : Discerns fun token => decide (token.kind = .mathShift true) :=
      .isAt .displayShift
    have same := abreast.any_head doubled
    cases tokens with
    | nil =>
      have unchanged : splitFront others = others := by
        cases others with
        | nil => rfl
        | cons other later => simpa [splitFront] using same
      rwa [unchanged]
    | cons token rest =>
      by_cases kind : token.kind = .mathShift true
      · obtain ⟨other, later, rfl, alike, ends, follow⟩ :=
          abreast.exists_of_cons (isSolid_shift kind).solid
        have also : other.kind = .mathShift true := by simpa [kind] using same
        have raw : other.raw = token.raw := by
          rw [← Token.core_shift kind, ← Token.core_shift also, alike.core]
        rw [behind_shift kind, behind_shift also] at follow
        simp only [splitFront, kind, also, if_true]
        refine ⟨.nothing, .nothing, ends, .inl rfl, .inl rfl,
          .token (by simp) (same_shift rfl rfl (by simp [splitShift, raw])) ?_⟩
        rw [@behind_shift _ false rfl, @behind_shift _ false rfl]
        refine .token (by simp) (same_shift rfl rfl (by simp [splitShift, raw])) ?_
        rwa [@behind_shift _ false rfl, @behind_shift _ false rfl]
      · have unchanged : splitFront others = others := by
          cases others with
          | nil => rfl
          | cons other later => simpa [splitFront, kind] using same
        rwa [unchanged, splitFront, if_neg kind]
  · exact abreast

end Parser

end TexSource
