import TexSource.Proofs.Layout.Recurrence.Nodes

/-!
# Arguments that recur

An argument behind spaces alone is found again where the tokens ahead differ in blanks, and one that
is left out is left out again. So a command recurs if its arguments do, and so do the commands that
start and end environments.
-/

namespace TexSource

namespace Parser

open Layout

section

variable {options : Options} {commands : CommandTable} {level : Nat} {mode : Mode}
  {ahead middle after rest : List Token} {reports : List Report}

theorem recurs_command (id : NodeId) (span : Span) {head : Placed} {star : Option Placed}
    {arguments : List Argument} {behindStar : List Token}
    (sequence : head.token.isControlSequence = true)
    (starred : Takes (fun token => (commands.command head.token.value).starred &&
      token.isCharacter '*') rest star behindStar)
    (within : Recurs options commands level mode behindStar (.arguments head.token.value 1
      (commands.command head.token.value).arguments arguments) after) :
    Recurs options commands level mode (head.token :: rest)
      (.command ⟨id, head.token.value, head, star, arguments, span⟩) after := by
  intro twin later rest' others first twins reread meets
  cases twins
  obtain ⟨other, others, rfl, same, follow⟩ :=
    Abreast.exists_of_cons meets (Token.isBlank_of_isControlSequence sequence)
  cases reread with
  | command _ _ _ starredOther readOther =>
    rw [name_eq_of_same same sequence] at starredOther readOther
    have discerns :=
      (Discerns.isCharacter '*').const_and (commands.command head.token.value).starred
    obtain ⟨-, behindStar⟩ := follow.abreast.takes discerns starred starredOther
    have found := fun start calm => within start (.arguments ..) readOther ⟨behindStar, calm⟩
    refine ⟨(found none (.inl rfl)).1, trivial, fun depth block key => ?_⟩
    have heads : Continues first [{ token := head.token, depth, key, block := key <|> block }]
        [{ token := _, depth, key, block := key <|> block }] rest others :=
      .cons ⟨same, rfl, rfl, rfl, rfl⟩ (.nil (.inl rfl))
    have stars := (heads.takes follow.abreast discerns starred starredOther depth (key <|> block)).2
    exact stars.append fun start calm => (found start calm).2.2 depth (key <|> block) key

variable (options) in
/-- The blanks in front of an argument, where no others stand in front of them. -/
theorem exists_alike_leading {first : Option Bool} {later : List Token}
    (calm : Calm first ahead later) {count otherCount : Nat} {leading otherLeading : List Node}
    (leaves : Leaves (ahead.take count) leading)
    (also : Leaves (later.take otherCount) otherLeading)
    (spaces : ∀ token ∈ ahead.take count, token.isSpace = true)
    (otherSpaces : ∀ token ∈ later.take otherCount, token.isSpace = true) (depth : Nat)
    (block : Option Text) :
    ∃ between, Alike first (nodesItems options depth block leading)
      (nodesItems options depth block otherLeading) between := by
  have blank : ∀ {tokens : List Token}, (∀ token ∈ tokens, token.isSpace = true) →
      ∀ token ∈ tokens, token.isBlank = true :=
    fun spaces token member => Token.isBlank_iff.mpr (.inl (spaces token member))
  have nothing : ∀ {tokens : List Token} {count : Nat}, tokens.head?.any Token.isBlank = false →
      (∀ token ∈ tokens.take count, token.isSpace = true) → tokens.take count = [] := by
    intro tokens count solid spaces
    cases tokens with
    | nil => exact List.take_nil
    | cons token rest =>
      cases count with
      | zero => rfl
      | succ count => simp [blank spaces token (by simp)] at solid
  rw [nodesItems_leaves leaves, nodesItems_leaves also]
  refine Alike.of_blanks depth block (blank spaces) (blank otherSpaces) ?_
  exact calm.imp_right fun solid => .inr ⟨nothing solid.1 spaces, nothing solid.2 otherSpaces⟩

theorem recurs_noArguments {command : Text} {position : Nat} :
    Recurs options commands level mode ahead (.arguments command position [] []) ahead := by
  intro twin later rest others first twins reread meets
  cases twins
  cases reread
  exact ⟨meets.1, trivial, fun _ _ _ => .nil meets.2⟩

/-- Whether an optional argument stands ahead. -/
theorem bracketAhead_eq {later : List Token} (abreast : Abreast ahead later) :
    (later.drop (spacesAhead later)).head?.any (Token.isCharacter · '[') =
      (ahead.drop (spacesAhead ahead)).head?.any (Token.isCharacter · '[') := by
  rw [drop_spacesAhead, drop_spacesAhead]
  exact abreast.any_dropSpaces (.isCharacter '[')

theorem Reads.bracketAhead {content : Node}
    (read : Reads commands level mode ahead (.bracket content) after reports) :
    (level < maxNesting && ahead.head?.any (Token.isCharacter · '[')) = true := by
  cases read with
  | bracket room opens => simp [room, opens]

theorem recurs_omitted {command : Text} {position : Nat} {kinds : List ArgumentKind}
    {arguments : List Argument}
    (absent : (level < maxNesting &&
      (ahead.drop (spacesAhead ahead)).head?.any (Token.isCharacter · '[')) = false)
    (within : Recurs options commands level mode ahead
      (.arguments command (position + 1) kinds arguments) after) :
    Recurs options commands level mode ahead
      (.arguments command position (.optional :: kinds) arguments) after := by
  intro twin later rest others first twins reread meets
  cases twins
  cases reread with
  | omitted _ laterOther =>
    obtain ⟨behind, -, items⟩ := within first (.arguments ..) laterOther meets
    exact ⟨behind, trivial, items⟩
  | optional _ _ readOther =>
    have present := readOther.bracketAhead
    rw [bracketAhead_eq meets.1, absent] at present
    cases present

/-- Sequences that differ in blanks do so behind spaces, in front of the same token. -/
theorem Abreast.dropSpaces {tokens others : List Token} (abreast : Abreast tokens others)
    {test : Token → Bool} (discerns : Discerns test)
    (passes : (tokens.drop (spacesAhead tokens)).head?.any test = true) :
    Abreast (tokens.drop (spacesAhead tokens)) (others.drop (spacesAhead others)) := by
  rw [drop_spacesAhead] at passes ⊢
  obtain ⟨token, rest, other, later, front, frontOther, -, same, follow⟩ :=
    abreast.exists_of_any_dropSpaces discerns passes
  rw [drop_spacesAhead, front, frontOther]
  exact follow.cons same

theorem recurs_optional {command : Text} {position : Nat} {kinds : List ArgumentKind}
    {arguments : List Argument} {blanks : List Node} {content : Node} {behind : List Token}
    (leading : Leaves (ahead.take (spacesAhead ahead)) blanks)
    (read : Reads commands level mode (ahead.drop (spacesAhead ahead)) (.bracket content) behind
      reports)
    (inside : Recurs options commands level mode (ahead.drop (spacesAhead ahead))
      (.bracket content) behind)
    (within : Recurs options commands level mode behind
      (.arguments command (position + 1) kinds arguments) after) :
    Recurs options commands level mode ahead
      (.arguments command position (.optional :: kinds)
        (⟨.optional, blanks, content⟩ :: arguments)) after := by
  intro twin later rest others first twins reread meets
  cases twins
  obtain ⟨abreast, calm⟩ := meets
  have present := read.bracketAhead
  cases reread with
  | omitted absent =>
    rw [bracketAhead_eq abreast, present] at absent
    cases absent
  | optional _ leadingOther readOther laterOther =>
    have behindBlanks := abreast.dropSpaces (.isCharacter '[') (Bool.and_eq_true_iff.mp present).2
    have contents := fun start => inside start (.bracket ..) readOther behindBlanks
    obtain ⟨between, -, -⟩ := contents none
    have others := fun start calm => within start (.arguments ..) laterOther ⟨between, calm⟩
    refine ⟨(others none (.inl rfl)).1, trivial, fun depth block key => ?_⟩
    obtain ⟨start, blanks⟩ := exists_alike_leading options calm leading leadingOther
      isSpace_of_mem_spacesAhead isSpace_of_mem_spacesAhead depth block
    obtain ⟨last, alike, rests⟩ := ((contents start).2.2 depth block key).append
      fun start calm => (others start calm).2.2 depth block key
    rw [Piece.items, Piece.items, argumentsItems, argumentsItems, List.append_assoc,
      List.append_assoc]
    exact ⟨last, blanks.append alike, rests⟩

/-- Where spaces alone are skipped before an argument, they are all that stand there. -/
theorem drop_gapAhead_of_spaces {tokens : List Token}
    (spaces : ∀ token ∈ tokens.take (gapAhead false tokens), token.isSpace = true) {token : Token}
    (stands : tokens.drop (gapAhead false tokens) = token :: rest) (solid : token.isSpace = false) :
    tokens.dropWhile Token.isSpace = token :: rest := by
  rw [← List.take_append_drop (gapAhead false tokens) tokens,
    List.dropWhile_append_of_pos spaces, stands, List.dropWhile_cons_of_neg (by simp [solid])]

theorem isSpace_of_canStart {token : Token} (accepted : cannotStartArgument token = false) :
    token.isSpace = false := by
  have blank := isBlank_of_canStart accepted
  by_contra space
  simp [Token.isBlank_iff.mpr (.inl (by simpa using space))] at blank

theorem cannotStart_eq {token other : Token} (same : token.Same other) :
    cannotStartArgument other = cannotStartArgument token := by
  cases code : token.isComment with
  | true => simp [cannotStartArgument, code, same.isComment.trans code]
  | false =>
    have kind := same.kind_eq code
    simp only [cannotStartArgument, Token.isEndOfInput, Token.isEndGroup, Token.isMathShift,
      Token.isBlank, Token.isComment, Token.isControlWord, kind]

/-- The token that starts a mandatory argument behind spaces. -/
theorem Abreast.exists_of_gap {tokens others : List Token} (abreast : Abreast tokens others)
    (spaces : ∀ token ∈ tokens.take (gapAhead false tokens), token.isSpace = true) {token : Token}
    (stands : tokens.drop (gapAhead false tokens) = token :: rest)
    (accepted : cannotStartArgument token = false) :
    ∃ other later, others.drop (gapAhead false others) = other :: later ∧
      (∀ token ∈ others.take (gapAhead false others), token.isSpace = true) ∧ token.Same other ∧
        Follow token other rest later := by
  have dropped := drop_gapAhead_of_spaces spaces stands (isSpace_of_canStart accepted)
  obtain ⟨other, later, also, same, follow⟩ :=
    abreast.exists_of_dropSpaces dropped (isBlank_of_canStart accepted)
  have count : gapAhead false others = spacesAhead others := by
    refine gapAhead_eq_spacesAhead false fun next front => ?_
    rw [also] at front
    cases front
    have acceptedOther := (cannotStart_eq same).trans accepted
    simp only [cannotStartArgument, Bool.or_eq_false_iff] at acceptedOther
    refine ⟨acceptedOther.1.1.2, ?_⟩
    by_contra ends
    simp [Token.isBlank_iff.mpr (.inr (by simpa using ends))] at acceptedOther
  rw [count]
  exact ⟨other, later, by rw [drop_spacesAhead, also], isSpace_of_mem_spacesAhead, same, follow⟩

theorem cannotStart_of_isBeginGroup {token : Token} (opens : token.isBeginGroup = true) :
    cannotStartArgument token = false := by
  obtain ⟨glyph, kind⟩ := Token.kind_of_isBeginGroup opens
  simp [cannotStartArgument, Token.isEndOfInput, Token.isEndGroup, Token.isMathShift, Token.isBlank,
    Token.Kind.isBlank, Token.isComment, Token.isControlWord, kind]

theorem recurs_braced {command : Text} {position : Nat} {kinds : List ArgumentKind}
    {arguments : List Argument} {blanks : List Node} {content : Node} {behind : List Token}
    (leading : Leaves (ahead.take (gapAhead false ahead)) blanks)
    (spaces : ∀ token ∈ ahead.take (gapAhead false ahead), token.isSpace = true)
    (opens : (ahead.drop (gapAhead false ahead)).head?.any Token.isBeginGroup = true)
    (inside : Recurs options commands level mode (ahead.drop (gapAhead false ahead))
      (.node content) behind)
    (within : Recurs options commands level mode behind
      (.arguments command (position + 1) kinds arguments) after) :
    Recurs options commands level mode ahead
      (.arguments command position (.mandatory :: kinds)
        (⟨.mandatory, blanks, content⟩ :: arguments)) after := by
  intro twin later rest others first twins reread meets
  cases twins
  obtain ⟨abreast, calm⟩ := meets
  cases stands : ahead.drop (gapAhead false ahead) with
  | nil => simp [stands] at opens
  | cons token tokens =>
    have isOpener : token.isBeginGroup = true := by simpa [stands] using opens
    have accepted := cannotStart_of_isBeginGroup isOpener
    obtain ⟨other, later, standsOther, otherSpaces, same, follow⟩ :=
      abreast.exists_of_gap spaces stands accepted
    cases reread with
    | missing _ refused => simp [standsOther, (cannotStart_eq same).trans accepted] at refused
    | single _ front _ unbraced =>
      rw [standsOther] at front
      cases front
      simp [(Discerns.isBeginGroup.same _ _ same).trans isOpener] at unbraced
    | braced leadingOther _ readOther laterOther =>
      rw [standsOther] at readOther
      rw [stands] at inside
      have contents := fun start => inside start (.node ..) readOther
        ⟨follow.cons same, by simpa using isBlank_of_canStart accepted⟩
      obtain ⟨between, -, -⟩ := contents none
      have others := fun start calm => within start (.arguments ..) laterOther ⟨between, calm⟩
      refine ⟨(others none (.inl rfl)).1, trivial, fun depth block key => ?_⟩
      obtain ⟨start, blanks⟩ := exists_alike_leading options calm leading leadingOther
        spaces otherSpaces depth block
      obtain ⟨last, alike, rests⟩ := ((contents start).2.2 depth block key).append
        fun start calm => (others start calm).2.2 depth block key
      rw [Piece.items, Piece.items, argumentsItems, argumentsItems, List.append_assoc,
        List.append_assoc]
      exact ⟨last, blanks.append alike, rests⟩

theorem recurs_single {command : Text} {position : Nat} {kinds : List ArgumentKind}
    {arguments : List Argument} {blanks : List Node} {id : NodeId} {placed : Placed}
    (leading : Leaves (ahead.take (gapAhead false ahead)) blanks)
    (spaces : ∀ token ∈ ahead.take (gapAhead false ahead), token.isSpace = true)
    (stands : ahead.drop (gapAhead false ahead) = placed.token :: rest)
    (accepted : cannotStartArgument placed.token = false)
    (unbraced : placed.token.isBeginGroup = false)
    (within : Recurs options commands level mode rest
      (.arguments command (position + 1) kinds arguments) after) :
    Recurs options commands level mode ahead
      (.arguments command position (.mandatory :: kinds)
        (⟨.mandatory, blanks, .leaf id placed⟩ :: arguments)) after := by
  intro twin later rest others first twins reread meets
  cases twins
  obtain ⟨abreast, calm⟩ := meets
  obtain ⟨other, later, standsOther, otherSpaces, same, follow⟩ :=
    abreast.exists_of_gap spaces stands accepted
  cases reread with
  | missing _ refused => simp [standsOther, (cannotStart_eq same).trans accepted] at refused
  | braced _ opens =>
    simp [standsOther, (Discerns.isBeginGroup.same _ _ same).trans unbraced] at opens
  | single leadingOther front _ _ laterOther =>
    rw [standsOther] at front
    cases front
    have others := fun start calm =>
      within start (.arguments ..) laterOther ⟨follow.abreast, calm⟩
    refine ⟨(others none (.inl rfl)).1, trivial, fun depth block key => ?_⟩
    obtain ⟨start, blanks⟩ := exists_alike_leading options calm leading leadingOther
      spaces otherSpaces depth block
    obtain ⟨last, alike, rests⟩ := (others none (.inl rfl)).2.2 depth block key
    rw [Piece.items, Piece.items, argumentsItems, argumentsItems, List.append_assoc,
      List.append_assoc]
    exact ⟨last, blanks.append (.item ⟨same, rfl, rfl, rfl, rfl⟩ alike), rests⟩

theorem recurs_bracket {id : NodeId} {opener : Placed} {children : List Node}
    {closer : Option Placed} {span : Span} (opens : opener.token.isCharacter '[' = true)
    (within : Recurs options commands (level + 1) mode rest (.sequence .bracket children) middle)
    (closes : Takes (Token.isCharacter · ']') middle closer after) :
    Recurs options commands level mode (opener.token :: rest)
      (.bracket (.group id .bracket (some opener) children closer span)) after := by
  intro twin later rest' others first twins reread meets
  cases twins
  obtain ⟨other, others, rfl, same, follow⟩ :=
    Abreast.exists_of_cons meets (Token.isBlank_of_isCharacter opens)
  cases reread with
  | bracket _ _ insideOther closesOther =>
    obtain ⟨ends, respaced⟩ := follow
    obtain ⟨between, -, items⟩ :=
      within none (.sequence ..) insideOther ⟨⟨_, _, respaced⟩, .inr (.inl rfl)⟩
    exact ⟨(between.takes (.isCharacter ']') closes closesOther).2, trivial,
      fun depth block key => .delimited same (items (depth + 1) block key) between
        (.isCharacter ']') closes closesOther⟩

/-- No blank stands in front where a token that passes a test does. -/
theorem solid_of_any {tokens : List Token} {test : Token → Bool} (discerns : Discerns test)
    (passes : tokens.head?.any test = true) : tokens.head?.any Token.isBlank = false := by
  cases tokens with
  | nil => rfl
  | cons token rest => simpa using discerns.isBlank_eq_false (by simpa using passes)

theorem solid_take {tokens : List Token} (solid : tokens.head?.any Token.isBlank = false)
    (count : Nat) : (tokens.take count).head?.any Token.isBlank = false := by
  cases tokens with
  | nil => simp
  | cons token rest => cases count <;> simp_all

/-- Commands with the name of an environment, and the arguments behind it. -/
theorem continues_named {first : Option Bool} {head other : Placed}
    (same : head.token.Same other.token) {blanks otherBlanks : List Node}
    {nameGroup otherGroup : Node} {extra otherExtra : List Argument}
    {rest otherRest later : List Token}
    (leading : Leaves (rest.take (spacesAhead rest)) blanks)
    (also : Leaves (otherRest.take (spacesAhead otherRest)) otherBlanks) {depth : Nat}
    {block key : Option Text}
    (inside : ∀ first, Continues first
      (nodeItems options depth (key <|> block) nameGroup ++
        argumentsItems options depth (key <|> block) extra)
      (nodeItems options depth (key <|> block) otherGroup ++
        argumentsItems options depth (key <|> block) otherExtra) after later)
    (id otherId : NodeId) (name otherName : Text) (span otherSpan : Span) :
    Continues first
      (commandItems options depth block key
        ⟨id, name, head, none, ⟨.mandatory, blanks, nameGroup⟩ :: extra, span⟩)
      (commandItems options depth block key
        ⟨otherId, otherName, other, none, ⟨.mandatory, otherBlanks, otherGroup⟩ :: otherExtra,
          otherSpan⟩) after later := by
  obtain ⟨start, spaces⟩ := exists_alike_leading options (.inl (rfl : none = none))
    leading also isSpace_of_mem_spacesAhead isSpace_of_mem_spacesAhead depth (key <|> block)
  obtain ⟨last, alike, rests⟩ := inside start
  have heads : Continues first
      (⟨head.token, depth, false, key, key <|> block⟩ :: (_ ++ _))
      (⟨other.token, depth, false, key, key <|> block⟩ :: (_ ++ _)) after later :=
    .cons ⟨same, rfl, rfl, rfl, rfl⟩ ⟨last, spaces.append alike, rests⟩
  simpa [commandItems, argumentsItems, delimiterItems] using heads

theorem recurs_opening (settled : Settled options commands) (id : NodeId) (span : Span)
    {head : Placed} {blanks : List Node} {nameGroup : Node} {name : Text} {extra : List Argument}
    {behindName : List Token} (word : head.token.isControlWord "begin" = true)
    (leading : Leaves (rest.take (spacesAhead rest)) blanks)
    (braced : (rest.drop (spacesAhead rest)).head?.any Token.isBeginGroup = true)
    (named : Recurs options commands level mode (rest.drop (spacesAhead rest)) (.node nameGroup)
      behindName)
    (called : name = nameGroup.innerText.strip)
    (within : Recurs options commands level { mode with inEnvironment := false } behindName
      (.arguments ("begin" ++ Problem.braced name) 1 (commands.environment name).arguments extra)
      after) :
    Recurs options commands level mode (head.token :: rest)
      (.opening ⟨id, "begin", head, none, ⟨.mandatory, blanks, nameGroup⟩ :: extra, span⟩ name)
      after := by
  intro twin later rest' others first twins reread meets
  cases twins
  obtain ⟨other, others, rfl, same, follow⟩ := Abreast.exists_of_cons meets
    (Token.isBlank_of_isControlSequence (isControlSequence_of_isControlWord word))
  cases reread with
  | opening _ _ _ leadingOther _ namedOther calledOther readOther =>
    have behindBlanks := follow.abreast.dropSpaces .isBeginGroup braced
    have groups := fun start => named start (.node ..) namedOther
      ⟨behindBlanks, solid_of_any .isBeginGroup braced⟩
    obtain ⟨behindName, calledAlike, -⟩ := groups none
    have sameName := calledAlike braced
    rw [← called, ← calledOther] at sameName
    rw [settled.environment_eq sameName] at readOther
    have extras := fun start calm => within start (.arguments ..) readOther ⟨behindName, calm⟩
    refine ⟨(extras none (.inl rfl)).1, sameName, fun depth block key => ?_⟩
    rw [Piece.items, Piece.items]
    exact continues_named same leading leadingOther (fun start =>
      ((groups start).2.2 depth (key <|> block) key).append fun start calm =>
        (extras start calm).2.2 depth (key <|> block) key) ..

end

end Parser

end TexSource
