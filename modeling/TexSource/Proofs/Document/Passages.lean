import TexSource.Proofs.Document.BraceDepth
import TexSource.Proofs.Document.Pairing
import TexSource.Proofs.Document.Segments

/-!
# Verbatim passages

Where a document is not nested too deep and its environments are named legibly, its segments are
also those of a reader who knows no tree (`Segment.Fits`): outside of the verbatim environments no
`\begin` is followed by the name of one, and none of them contains an `\end` that could be taken
for its own.
-/

namespace TexSource

namespace Token

/-- The content of the group that stands ahead, spaces aside, if the group is closed. -/
def labelAhead (tokens : List Token) : Option Text :=
  match tokens.dropWhile isSpace with
  | [] => none
  | opener :: rest =>
    if opener.isBeginGroup && !(rest.drop (Parser.flatLength 0 rest)).isEmpty then
      some (rawText (rest.take (Parser.flatLength 0 rest))).strip
    else none

/-- Whether no `\end` among tokens could end the named environment: either no group stands behind
it, or one that is closed among the tokens and has another content. -/
def namesOthers (name : Text) : List Token → Bool
  | [] => true
  | token :: rest =>
    (!token.isControlWord "end" || !(rest.dropWhile isSpace).head?.any isBeginGroup ||
      (labelAhead rest).any (· ≠ name)) && namesOthers name rest

/-- A control word and a group with a name behind it, spaces aside. -/
inductive Labelled (word : Text) : (name : Text) → List Token → Prop where
  | intro {head opener closer : Token} {spaces label : List Token}
      (isWord : head.isControlWord word = true) (blank : ∀ token ∈ spaces, token.isSpace = true)
      (opens : opener.isBeginGroup = true) (balanced : Balanced label)
      (closes : closer.isEndGroup = true) :
      Labelled word (rawText label).strip (head :: (spaces ++ opener :: (label ++ [closer])))

/-- Behind the blanks there is the opening brace. -/
theorem dropWhile_spaces {opener : Token} {spaces : List Token}
    (blank : ∀ token ∈ spaces, token.isSpace = true) (opens : opener.isBeginGroup = true)
    (rest : List Token) : (spaces ++ opener :: rest).dropWhile isSpace = opener :: rest := by
  rw [List.dropWhile_append_of_pos blank,
    List.dropWhile_cons_of_neg (by simp [isSpace_of_isBeginGroup opens])]

/-- A balanced group ahead gives a label. -/
theorem labelAhead_of_balanced {opener closer : Token} {spaces label : List Token}
    (blank : ∀ token ∈ spaces, token.isSpace = true) (opens : opener.isBeginGroup = true)
    (balanced : Balanced label) (closes : closer.isEndGroup = true) (rest : List Token) :
    labelAhead (spaces ++ opener :: (label ++ closer :: rest)) = some (rawText label).strip := by
  have length := Parser.flatLength_of_depthBehind balanced closes rest
  simp [labelAhead, dropWhile_spaces blank opens, opens, length]

/-- What stands ahead, spaces aside: a closed group, a group that is not closed, or no group. -/
inductive GroupAhead : List Token → Prop where
  | closed {spaces label behind : List Token} {opener closer : Token}
      (blank : ∀ token ∈ spaces, token.isSpace = true) (opens : opener.isBeginGroup = true)
      (balanced : Balanced label) (closes : closer.isEndGroup = true) :
      GroupAhead (spaces ++ opener :: (label ++ closer :: behind))
  | unclosed {spaces label : List Token} {opener : Token} {depth : Nat}
      (blank : ∀ token ∈ spaces, token.isSpace = true) (opens : opener.isBeginGroup = true)
      (unclosed : depthBehind 0 label = some depth) : GroupAhead (spaces ++ opener :: label)
  | none {spaces behind : List Token} (blank : ∀ token ∈ spaces, token.isSpace = true)
      (other : ∀ token ∈ behind.head?, token.isSpace = false ∧ token.isBeginGroup = false) :
      GroupAhead (spaces ++ behind)

/-- Behind the blanks there is a closed group, an unclosed one or none. -/
theorem groupAhead (tokens : List Token) : GroupAhead tokens := by
  rw [← List.takeWhile_append_dropWhile (p := isSpace) (l := tokens)]
  have blank : ∀ token ∈ tokens.takeWhile isSpace, token.isSpace = true :=
    List.all_eq_true.mp List.all_takeWhile
  have solid := List.head?_dropWhile_not isSpace tokens
  cases behind : tokens.dropWhile isSpace with
  | nil => exact .none blank (by simp)
  | cons opener rest =>
    have solid : opener.isSpace = false := by simpa [behind] using solid
    by_cases opens : opener.isBeginGroup = true
    · by_cases closed : rest.drop (Parser.flatLength 0 rest) = []
      · obtain ⟨depth, unclosed⟩ := Parser.exists_depthBehind closed
        exact .unclosed blank opens unclosed
      · obtain ⟨closer, later, left, closes, balanced⟩ := Parser.exists_closer closed
        rw [← List.take_append_drop (Parser.flatLength 0 rest) rest, left]
        exact .closed blank opens balanced closes
    · exact .none blank (by simp [solid, opens])

/-- A group that is not closed gives no label. -/
theorem labelAhead_of_unclosed {opener : Token} {spaces label : List Token} {depth : Nat}
    (blank : ∀ token ∈ spaces, token.isSpace = true) (opens : opener.isBeginGroup = true)
    (unclosed : depthBehind 0 label = some depth) :
    labelAhead (spaces ++ opener :: label) = Option.none := by
  simp [labelAhead, dropWhile_spaces blank opens,
    Parser.drop_flatLength_of_depthBehind unclosed]

theorem dropWhile_of_other {spaces behind : List Token}
    (blank : ∀ token ∈ spaces, token.isSpace = true)
    (other : ∀ token ∈ behind.head?, token.isSpace = false ∧ token.isBeginGroup = false) :
    (spaces ++ behind).dropWhile isSpace = behind := by
  rw [List.dropWhile_append_of_pos blank]
  cases behind with
  | nil => rfl
  | cons token rest => exact List.dropWhile_cons_of_neg (by simp [other token rfl])

/-- Without a group there is no label. -/
theorem labelAhead_of_other {spaces behind : List Token}
    (blank : ∀ token ∈ spaces, token.isSpace = true)
    (other : ∀ token ∈ behind.head?, token.isSpace = false ∧ token.isBeginGroup = false) :
    labelAhead (spaces ++ behind) = Option.none := by
  unfold labelAhead
  rw [dropWhile_of_other blank other]
  cases behind with
  | nil => rfl
  | cons token rest => simp [other token rfl]

/-- What names others names others at its end. -/
theorem namesOthers_of_append {name : Text} (tokens : List Token) {others : List Token}
    (quiet : namesOthers name (tokens ++ others) = true) : namesOthers name others = true := by
  induction tokens with
  | nil => exact quiet
  | cons token rest ih => exact ih (Bool.and_eq_true_iff.mp quiet).2

/-- What is labelled has its label ahead. -/
theorem Labelled.labelAhead {word name : Text} {head : Token} {front : List Token}
    (labelled : Labelled word name (head :: front)) (rest : List Token) :
    labelAhead (front ++ rest) = some name := by
  cases labelled with
  | intro _ blank opens balanced closes =>
    simpa using labelAhead_of_balanced blank opens balanced closes rest

theorem dropWhile_isSpace (tokens : List Token) :
    tokens.dropWhile isSpace = tokens.drop (Parser.spacesAhead tokens) := by
  conv => enter [2, 2]; rw [← List.takeWhile_append_dropWhile (p := isSpace) (l := tokens)]
  exact List.drop_left.symm

theorem labelAhead_of_unbraced {tokens : List Token}
    (unbraced : (tokens.drop (Parser.spacesAhead tokens)).head?.any isBeginGroup = false) :
    labelAhead tokens = none := by
  rw [← dropWhile_isSpace] at unbraced
  unfold labelAhead
  cases ahead : tokens.dropWhile isSpace with
  | nil => rfl
  | cons opener rest =>
    have other : opener.isBeginGroup = false := by simpa [ahead] using unbraced
    simp [other]

/-- What stands ahead reads the same when math shifts are split. -/
theorem labelAhead_eq {tokens others : List Token} (splits : Parser.Splits tokens others) :
    labelAhead others = labelAhead tokens := by
  have behind := splits.dropWhile Parser.isSpace_of_isMathShift
  unfold labelAhead
  generalize tokens.dropWhile isSpace = first at behind ⊢
  generalize others.dropWhile isSpace = second at behind ⊢
  cases behind with
  | nil => rfl
  | @keep opener first second later =>
    obtain ⟨content, left⟩ := later.flatLength 0
    have empty : (second.drop (Parser.flatLength 0 second)).isEmpty =
        (first.drop (Parser.flatLength 0 first)).isEmpty := by
      generalize first.drop _ = first at left ⊢
      generalize second.drop _ = second at left ⊢
      cases left <;> rfl
    simp only [empty, content.rawText_eq]
  | split doubled later => simp [isBeginGroup, Parser.splitShift, doubled]

end Token

/-- The tokens between the braces of the first argument, if that is a closed group. -/
def Command.label? (invocation : Command) : Option (List Token) :=
  match invocation.arguments with
  | ⟨_, _, .group _ .brace _ children (some _) _⟩ :: _ =>
    some ((placedAll children).map Placed.token)
  | _ => none

/-- Whether the first argument is a closed group in which braces match. -/
def Command.isLabelled (invocation : Command) : Bool :=
  invocation.label?.any fun label => decide (Token.Balanced label)

/-- Whether the name of an environment stands in a closed group in which braces match, and, for a
verbatim environment, also the name at its end, which is the only one of its ends. -/
def Node.isLegible (commands : CommandTable) : Node → Bool
  | .environment _ name opening body ending matched _ =>
    opening.isLabelled && (!commands.isVerbatim name ||
      Token.namesOthers name
        ((placedArguments opening.arguments.tail ++ placedAll body).map Placed.token) &&
      ending.all fun ending => matched && ending.isLabelled)
  | _ => true

section

variable (commands : CommandTable)

/-- What a reader of tokens can tell of a segment and the tokens behind it. No verbatim environment
starts at a token that is outside of them; a verbatim environment starts as such, has no end but its
own, and reaches to the end of the input if it has none. -/
inductive Segment.Fits : Segment → List Token → Prop where
  | token {placed : Placed} {behind : List Token}
      (outside : placed.token.isControlWord "begin" = true →
        ∀ name ∈ Token.labelAhead behind, commands.isVerbatim name = false) :
      Fits (.token placed) behind
  | ended {id : NodeId} {name : Text} {opening ending : Command} {body : List Node}
      {matched : Bool} {span : Span} {label held last behind : List Token}
      (verbatim : commands.isVerbatim name = true) (begins : Token.Labelled "begin" name label)
      (quiet : Token.namesOthers name held = true) (ends : Token.Labelled "end" name last)
      (whole : (Node.environment id name opening body (some ending) matched span).tokens =
        label ++ held ++ last) :
      Fits (.passage (.environment id name opening body (some ending) matched span)) behind
  | unended {id : NodeId} {name : Text} {opening : Command} {body : List Node}
      {matched : Bool} {span : Span} {label held : List Token}
      (verbatim : commands.isVerbatim name = true) (begins : Token.Labelled "begin" name label)
      (quiet : Token.namesOthers name held = true)
      (whole : (Node.environment id name opening body none matched span).tokens = label ++ held) :
      Fits (.passage (.environment id name opening body none matched span)) []

/-- Segments that fit what stands behind each of them. -/
inductive Fitting (after : List Token) : List Segment → Prop where
  | nil : Fitting after []
  | cons {segment : Segment} {rest : List Segment}
      (fits : segment.Fits commands (Segment.tokens rest ++ after))
      (later : Fitting after rest) : Fitting after (segment :: rest)

variable {commands} {middle after : List Token} {segments others : List Segment}

/-- Splitting the shifts behind does not matter to what fits. -/
theorem Segment.Fits.of_splits {segment : Segment} {behind other : List Token}
    (fits : segment.Fits commands behind) (splits : Parser.Splits behind other) :
    segment.Fits commands other := by
  cases fits with
  | token outside =>
    refine .token fun begins => ?_
    rw [Token.labelAhead_eq splits]
    exact outside begins
  | ended verbatim begins quiet ends whole => exact .ended verbatim begins quiet ends whole
  | unended verbatim begins quiet whole =>
    rw [splits.eq_nil]
    exact .unended verbatim begins quiet whole

/-- A segment that fits is not empty. -/
theorem Segment.Fits.tokens_ne_nil {segment : Segment} {behind : List Token}
    (fits : segment.Fits commands behind) : segment.placed.map Placed.token ≠ [] := by
  cases fits with
  | token => exact List.cons_ne_nil _ _
  | ended _ begins _ _ whole =>
    intro empty
    cases begins
    cases whole.symm.trans empty
  | unended _ begins _ whole =>
    intro empty
    cases begins
    cases whole.symm.trans empty

namespace Fitting

/-- Segments fit other segments behind them. -/
theorem append (first : Fitting commands middle segments)
    (splits : Parser.Splits middle (Segment.tokens others ++ after))
    (later : Fitting commands after others) : Fitting commands after (segments ++ others) := by
  induction first with
  | nil => exact later
  | @cons segment rest fits _ ih =>
    refine .cons (fits.of_splits ?_) ih
    change Parser.Splits _ (Segment.tokens (rest ++ others) ++ after)
    rw [Segment.tokens_append, List.append_assoc]
    exact (Parser.Splits.refl _).append splits

/-- Segments fit before split shifts as well. -/
theorem of_splits (fitting : Fitting commands middle segments)
    (splits : Parser.Splits middle after) : Fitting commands after segments := by
  have same : Parser.Splits middle (Segment.tokens [] ++ after) := splits
  simpa using fitting.append same .nil

/-- Segments behind others that fit. -/
theorem of_append (fitting : Fitting commands after (segments ++ others)) :
    Fitting commands after others := by
  induction segments with
  | nil => exact fitting
  | cons segment rest ih =>
    cases fitting with
    | cons _ later => exact ih later

/-- Segments without tokens are no segments. -/
theorem eq_nil (fitting : Fitting commands after segments) (empty : Segment.tokens segments = []) :
    segments = [] := by
  cases fitting with
  | nil => rfl
  | cons fits _ =>
    rw [Segment.tokens_cons, List.append_eq_nil_iff] at empty
    exact absurd empty.1 fits.tokens_ne_nil

/-- Tokens that begin no environment fit whatever stands behind. -/
theorem quiet {tokens : List Placed}
    (quiet : ∀ placed ∈ tokens, placed.token.isControlWord "begin" = false) (after : List Token) :
    Fitting commands after (tokens.map .token) := by
  induction tokens with
  | nil => exact .nil
  | cons placed rest ih =>
    rw [List.forall_mem_cons] at quiet
    exact .cons (.token fun begins => absurd begins (by simp [quiet.1])) (ih quiet.2)

/-- Tokens that begin no environment may stand in front. -/
theorem prepend {tokens : List Placed}
    (quiet : ∀ placed ∈ tokens, placed.token.isControlWord "begin" = false)
    (later : Fitting commands after others) :
    Fitting commands after (tokens.map .token ++ others) :=
  (Fitting.quiet quiet (Segment.tokens others ++ after)).append (.refl _) later

end Fitting

end

namespace Parser

variable {commands : CommandTable} {level : Nat} {mode : Mode} {ahead after : List Token}
  {piece : Piece} {reports : List Report} {invocation : Command} {name : Text}

/-- A group is enclosed by braces. -/
theorem Reads.braces_group {id : NodeId} {opener closer : Option Placed} {children : List Node}
    {span : Span}
    (read : Reads commands level mode ahead (.node (.group id .brace opener children closer span))
      after reports) :
    (∃ placed, opener = some placed ∧ placed.token.isBeginGroup = true) ∧
      ∀ placed ∈ closer, placed.token.isEndGroup = true := by
  have listed : (Role.text, Node.group id .brace opener children closer span) ∈
      (Piece.node (.group id .brace opener children closer span)).located commands level := by
    simp [Piece.located, Node.located]
  obtain ⟨placed, same, opens, -⟩ := read.matched.groups _ listed
  exact ⟨⟨placed, same, opens⟩, (read.matched.proper _ listed).2.2⟩

theorem isSpace_of_mem_spacesAhead {tokens : List Token} :
    ∀ token ∈ tokens.take (spacesAhead tokens), token.isSpace = true := by
  intro token member
  rw [spacesAhead, ← List.prefix_iff_eq_take.mp (List.takeWhile_prefix _)] at member
  exact List.all_eq_true.mp List.all_takeWhile token member

/-- The group with the name of an environment, and what stands in front of it. -/
theorem Reads.labelled_group {word : Text} {head : Placed} {blanks : List Node} {nameGroup : Node}
    {rest : List Token} {extra : List Argument} {id : NodeId} {span : Span}
    (isWord : head.token.isControlWord word = true)
    (leading : Leaves (rest.take (spacesAhead rest)) blanks)
    (read : Reads commands level mode (rest.drop (spacesAhead rest))
      (.node nameGroup) after reports)
    (labelled : (⟨id, word, head, none, ⟨.mandatory, blanks, nameGroup⟩ :: extra, span⟩ :
      Command).isLabelled = true) :
    Token.Labelled word nameGroup.innerText.strip
      (head.token :: (placedAll blanks ++ nameGroup.placed).map Placed.token) := by
  unfold Command.isLabelled Command.label? at labelled
  dsimp only at labelled
  split at labelled
  · rename_i shape
    cases shape
    obtain ⟨⟨opener, rfl, opens⟩, closes⟩ := read.braces_group
    have spaces : ∀ token ∈ (placedAll blanks).map Placed.token, token.isSpace = true := by
      rw [tokens_leaves leading]
      exact isSpace_of_mem_spacesAhead
    have balanced : Token.Balanced _ := of_decide_eq_true labelled
    simpa [Node.placed, Node.innerText] using
      Token.Labelled.intro isWord spaces opens balanced (closes _ rfl)
  · cases labelled

/-- The begin of an environment is labelled with its name. -/
theorem Reads.labelled_opening
    (read : Reads commands level mode ahead (.opening invocation name) after reports)
    (labelled : invocation.isLabelled = true) :
    ∃ label, Token.Labelled "begin" name label ∧
      invocation.placed.map Placed.token =
        label ++ (placedArguments invocation.arguments.tail).map Placed.token := by
  cases read with
  | opening _ _ word leading _ named called =>
    subst called
    exact ⟨_, named.labelled_group word leading labelled, by simp [Command.placed, placedArguments]⟩

/-- The end of an environment is labelled with its name, if it has a label at all. -/
theorem Reads.labelled_ending
    (read : Reads commands level mode ahead (.ending invocation name) after reports)
    (labelled : invocation.isLabelled = true) :
    Token.Labelled "end" name (invocation.placed.map Placed.token) := by
  cases read with
  | namedEnding _ _ word leading _ named =>
    simpa [Command.placed, placedArguments] using named.labelled_group word leading labelled
  | namelessEnding => cases labelled

/-- A verbatim body reaches to an end of its environment or to the end of the input. -/
theorem startsWithEnd_drop (name : Text) (tokens : List Token) :
    tokens.drop (verbatimLength name tokens) = [] ∨
      startsWithEnd name (tokens.drop (verbatimLength name tokens)) = true := by
  induction tokens with
  | nil => exact .inl rfl
  | cons token rest ih =>
    unfold verbatimLength
    split
    · rename_i ends
      exact .inr ends
    · exact ih

/-- What starts with the end of a name starts with an `\end`. -/
theorem isControlWord_of_startsWithEnd {tokens : List Token}
    (ends : startsWithEnd name tokens = true) :
    tokens.head?.any (Token.isControlWord · "end") = true := by
  unfold startsWithEnd at ends
  split at ends
  · cases ends
  · exact (Bool.and_eq_true_iff.mp ends).1

/-- A verbatim environment that is legible is a passage. -/
theorem Reads.fits_passage {id : NodeId} {opening : Command} {body : List Node}
    {ending : Option (Command × Text)} {span : Span} {behindHead behindBody : List Token}
    {inside behind : List Report} (verbatim : commands.isVerbatim name = true)
    (opened : Reads commands level mode ahead (.opening opening name) behindHead reports)
    (content : Reads commands level mode behindHead (.body name body) behindBody inside)
    (ended : Reads commands level mode behindBody (.behindBody ending) after behind)
    (legible : (Node.environment id name opening body (ending.map Prod.fst)
      (mismatch name opening ending).isNone span).isLegible commands = true) :
    (Segment.passage (.environment id name opening body (ending.map Prod.fst)
      (mismatch name opening ending).isNone span)).Fits commands after := by
  simp only [Node.isLegible, verbatim, Bool.not_true, Bool.false_or, Bool.and_eq_true,
    Option.all_map] at legible
  obtain ⟨labelled, quiet, closed⟩ := legible
  obtain ⟨label, begins, head⟩ := opened.labelled_opening labelled
  cases ended with
  | unended absent =>
    have finished : after = [] := by
      cases content with
      | verbatimBody =>
        rcases startsWithEnd_drop name behindHead with finished | ends
        · exact finished
        · rw [isControlWord_of_startsWithEnd ends] at absent
          cases absent
      | textBody _ text => simp [text] at verbatim
    subst finished
    refine .unended verbatim begins quiet ?_
    simp [Node.tokens, Node.placed, head]
  | @ended _ _ invocation endName _ _ _ read =>
    simp only [Option.all_some, Bool.and_eq_true] at closed
    obtain ⟨matched, ends⟩ := closed
    obtain rfl : endName = name := by
      by_contra other
      simp [mismatch, other] at matched
    refine .ended verbatim begins quiet (read.labelled_ending ends) ?_
    simp [Node.tokens, Node.placed, head]

variable (commands) in
/-- The segments of a piece fit what is left behind it. That a `\begin` begins no verbatim
environment is settled by the construct that it is read for. -/
def Piece.IsFitting (after : List Token) : Piece → Prop
  | .sequence _ nodes => Fitting commands after (segmentsAll commands nodes)
  | .node content => Fitting commands after (content.segments commands)
  | .bracket content => Fitting commands after (content.segments commands)
  | .command invocation => Fitting commands after (invocation.segments commands).tail
  | .arguments _ _ _ found => Fitting commands after (segmentsArguments commands found)
  | .opening invocation name => invocation.isLabelled = true → commands.isVerbatim name = false →
      Fitting commands after (invocation.segments commands)
  | .ending invocation _ => Fitting commands after (invocation.segments commands)
  | .body name nodes => commands.isVerbatim name = false →
      Fitting commands after (segmentsAll commands nodes)
  | .behindBody found =>
      Fitting commands after (found.toList.flatMap fun found => found.1.segments commands)

theorem Reads.head_command {token : Token} {rest : List Token}
    (read : Reads commands level mode (token :: rest) (.command invocation) after reports) :
    invocation.head.token = token := by
  cases read
  rfl

/-- A token that passes a test that no `\begin` passes. -/
theorem isControlWord_begin_eq_false (test : Token → Bool)
    (never : ∀ token : Token, token.kind = .controlWord "begin" → test token = false)
    {token : Token} (passes : test token = true) : token.isControlWord "begin" = false := by
  by_contra word
  have kind : token.kind = .controlWord "begin" := by
    unfold Token.isControlWord at word
    split at word
    · rename_i kind
      simpa [kind] using word
    · exact absurd rfl word
  rw [never token kind] at passes
  cases passes

theorem begin_of_isBeginGroup {token : Token} (opens : token.isBeginGroup = true) :
    token.isControlWord "begin" = false :=
  isControlWord_begin_eq_false Token.isBeginGroup
    (fun _ kind => by simp [Token.isBeginGroup, kind]) opens

theorem begin_of_isEndGroup {token : Token} (closes : token.isEndGroup = true) :
    token.isControlWord "begin" = false :=
  isControlWord_begin_eq_false Token.isEndGroup
    (fun _ kind => by simp [Token.isEndGroup, kind]) closes

theorem begin_of_isCharacter {token : Token} {character : Char}
    (same : token.isCharacter character = true) : token.isControlWord "begin" = false :=
  isControlWord_begin_eq_false (Token.isCharacter · character)
    (fun _ kind => by simp [Token.isCharacter, kind]) same

/-- What is passed over begins no environment. -/
theorem begin_of_isSkipped {token : Token} (skipped : isSkipped token = true) :
    token.isControlWord "begin" = false :=
  isControlWord_begin_eq_false isSkipped (fun _ kind => by
    simp [isSkipped, Token.isBlank, Token.Kind.isBlank, Token.isComment, kind]) skipped

theorem begin_of_opensMath {token : Token} (opens : opensMath token = true) :
    token.isControlWord "begin" = false :=
  isControlWord_begin_eq_false opensMath (fun _ kind => by
    simp [opensMath, Token.isMathShift, kind]) opens

theorem begin_of_isAt {closing : Closing} {token : Token} (closes : closing.isAt token = true) :
    token.isControlWord "begin" = false :=
  isControlWord_begin_eq_false closing.isAt (fun _ kind => by
    cases closing <;> simp [Closing.isAt, Token.isCharacter, Token.isMathShift, kind]) closes

theorem begin_of_isControlWord_end {token : Token} (ends : token.isControlWord "end" = true) :
    token.isControlWord "begin" = false :=
  isControlWord_begin_eq_false (Token.isControlWord · "end")
    (fun _ kind => by
      simp only [Token.isControlWord, kind]
      decide) ends

/-- What is enclosed fits if the inside does. -/
theorem fitting_enclosed {test : Token → Bool} {opener : Placed} {closer : Option Placed}
    {middle : List Token} {segments : List Segment}
    (opens : opener.token.isControlWord "begin" = false)
    (closes : Takes test middle closer after)
    (other : ∀ token, test token = true → token.isControlWord "begin" = false)
    (inside : Fitting commands middle segments) :
    Fitting commands after (.token opener :: segments ++ closer.toList.map .token) := by
  have last : Fitting commands after (closer.toList.map .token) := by
    refine .quiet ?_ after
    cases closes with
    | taken passes => simpa using other _ passes
    | left => simp
  have same : middle = Segment.tokens (closer.toList.map .token) ++ after := by
    rw [closes.tokens_eq, Segment.tokens, flatMap_placed_token]
  exact .cons (.token fun begins => absurd begins (by simp [opens]))
    (inside.append (same ▸ .refl _) last)

/-- Arguments fit one after another. -/
theorem fitting_argument (kind : ArgumentKind) {tokens middle : List Token} {leading : List Node}
    {content : Node} {found : List Argument} (leaves : Leaves tokens leading)
    (skipped : ∀ token ∈ tokens, isSkipped token = true)
    (first : Fitting commands middle (content.segments commands))
    (splits : Splits middle ((placedArguments found).map Placed.token ++ after))
    (later : Fitting commands after (segmentsArguments commands found)) :
    Fitting commands after (segmentsArguments commands (⟨kind, leading, content⟩ :: found)) := by
  rw [segmentsArguments, segmentsAll_leaves leaves, List.append_assoc]
  refine .prepend (fun placed member => ?_) (first.append (by simpa using splits) later)
  refine begin_of_isSkipped (skipped _ ?_)
  rw [← tokens_leaves leaves]
  exact List.mem_map_of_mem member

/-- A piece for which there is room below a level, and whose environments are legible, fits what is
left behind it. -/
def Piece.FitsWithin (commands : CommandTable) (level : Nat) (piece : Piece) (after : List Token) :
    Prop :=
  level + piece.depth ≤ maxNesting → (∀ node ∈ piece.walk, node.isLegible commands = true) →
    piece.IsFitting commands after

section

variable {id : NodeId} {span : Span} {children body blanks : List Node} {opener head : Placed}
  {closer star : Option Placed} {middle rest behindHead behindBody : List Token} {token : Token}
  {arguments : List Argument} {kinds : List ArgumentKind} {command : Text} {position : Nat}
  {inside behind : List Report}

/-- A group fits if what is in it does. -/
theorem fitting_group (opens : opener.token.isBeginGroup = true)
    (closes : Takes Token.isEndGroup middle closer after)
    (inside : Piece.FitsWithin commands (level + 1) (.sequence .never children) middle) :
    Piece.FitsWithin commands level (.node (.group id .brace (some opener) children closer span))
      after := by
  intro shallow legible
  simp only [Piece.depth, Node.depth] at shallow
  simp only [Piece.walk, Node.walk, List.forall_mem_cons] at legible
  exact fitting_enclosed (begin_of_isBeginGroup opens) closes (fun _ => begin_of_isEndGroup)
    (inside (by rw [Piece.depth]; omega) legible.2)

/-- A formula fits if what is in it does. -/
theorem fitting_math {closing : Closing} (opens : opensMath opener.token = true)
    (closes : Takes closing.isAt (closing.ahead middle) closer after)
    (inside : Piece.FitsWithin commands (level + 1) (.sequence closing children) middle) :
    Piece.FitsWithin commands level (.node (.math id closing.isDisplay opener children closer span))
      after := by
  intro shallow legible
  simp only [Piece.depth, Node.depth] at shallow
  simp only [Piece.walk, Node.walk, List.forall_mem_cons] at legible
  have content : Fitting commands middle (segmentsAll commands children) :=
    inside (by rw [Piece.depth]; omega) legible.2
  exact fitting_enclosed (begin_of_opensMath opens) closes (fun _ => begin_of_isAt)
    (content.of_splits (closing.splits_ahead middle))

/-- A group in brackets fits if what is in it does. -/
theorem fitting_bracket (opens : opener.token.isCharacter '[' = true)
    (closes : Takes (Token.isCharacter · ']') middle closer after)
    (inside : Piece.FitsWithin commands (level + 1) (.sequence .bracket children) middle) :
    Piece.FitsWithin commands level (.bracket
      (.group id .bracket (some opener) children closer span))
      after := by
  intro shallow legible
  simp only [Piece.depth, Node.depth] at shallow
  simp only [Piece.walk, Node.walk, List.forall_mem_cons] at legible
  exact fitting_enclosed (begin_of_isCharacter opens) closes (fun _ => begin_of_isCharacter)
    (inside (by rw [Piece.depth]; omega) legible.2)

/-- A verbatim environment is a passage; the parts of any other one fit each other. -/
theorem fitting_environment {opening : Command} {ending : Option (Command × Text)}
    (opened : Reads commands level mode ahead (.opening opening name) behindHead reports)
    (content : Reads commands level mode behindHead (.body name body) behindBody inside)
    (ended : Reads commands level mode behindBody (.behindBody ending) after behind)
    (head : Piece.FitsWithin commands level (.opening opening name) behindHead)
    (inner : Piece.FitsWithin commands level (.body name body) behindBody)
    (last : Piece.FitsWithin commands level (.behindBody ending) after) :
    Piece.FitsWithin commands level (.node (.environment id name opening body
      (ending.map Prod.fst) (mismatch name opening ending).isNone span)) after := by
  intro shallow legible
  rw [Piece.IsFitting, Node.segments_environment]
  split
  · rename_i verbatim
    have fits := opened.fits_passage verbatim content ended (legible _ (Node.mem_walk _))
    exact .cons (by simpa using fits) .nil
  · rename_i text
    have text : commands.isVerbatim name = false := by simpa using text
    simp only [Piece.FitsWithin, Piece.depth] at head inner last
    simp only [Piece.depth, Node.depth_environment, Option.map_map, Function.comp_def] at shallow
    simp only [Piece.walk, Node.walk_environment, List.forall_mem_cons, List.forall_mem_append,
      Option.toList_map, List.flatMap_map] at legible last ⊢
    obtain ⟨own, ⟨inHead, inBody⟩, inEnd⟩ := legible
    rw [Node.isLegible, Bool.and_eq_true] at own
    have first := head (by omega) inHead own.1 text
    have second := inner (by omega) inBody text
    have third := last (by omega) inEnd
    have closes : Segment.tokens (ending.toList.flatMap fun found => found.1.segments commands) =
        (ending.toList.flatMap fun found => found.1.placed).map Placed.token := by
      cases ending <;> simp
    have splits := ended.splits
    rw [Piece.placed, ← closes] at splits
    rw [List.append_assoc]
    refine first.append ?_ (second.append splits third)
    rw [Segment.tokens_append, tokens_segmentsAll, List.append_assoc]
    exact content.splits.trans ((Splits.refl _).append splits)

/-- No group stands behind a `\begin` without a name. -/
theorem fitting_nameless (word : token.isControlWord "begin" = true)
    (unbraced : (rest.drop (spacesAhead rest)).head?.any Token.isBeginGroup = false)
    (read : Reads commands level mode (token :: rest) (.command invocation) after reports)
    (inner : Piece.FitsWithin commands level (.command invocation) after) :
    Piece.FitsWithin commands level (.node (.command invocation)) after := by
  intro shallow legible
  rw [Piece.IsFitting, Node.segments, invocation.segments_eq]
  refine .cons (.token fun _ name found => ?_) (inner shallow legible)
  have single : token.kind ≠ .mathShift true := by
    intro kind
    simp [Token.isControlWord, kind] at word
  obtain ⟨later, same, splits⟩ := read.splits.cons_inv single
  rw [Piece.placed, invocation.tokens_eq commands, List.cons_append] at same
  obtain ⟨-, rfl⟩ := List.cons_eq_cons.mp same
  rw [Token.labelAhead_eq splits, Token.labelAhead_of_unbraced unbraced] at found
  cases found

/-- A `\begin` for which there is room is no plain command. -/
theorem fitting_plainCommand (plain : startsConstruct level mode token = false)
    (read : Reads commands level mode (token :: rest) (.command invocation) after reports)
    (inner : Piece.FitsWithin commands level (.command invocation) after) :
    Piece.FitsWithin commands level (.node (.command invocation)) after := by
  intro shallow legible
  rw [Piece.IsFitting, Node.segments, invocation.segments_eq]
  refine .cons (.token fun begins => ?_) (inner shallow legible)
  simp only [Piece.depth, Node.depth] at shallow
  rw [read.head_command] at begins
  have counted : 1 ≤ invocation.depth := invocation.depth_of_begin (by
    rw [read.name_command, value_of_isControlWord begins])
  have room : level < maxNesting := by omega
  simp [startsConstruct, room, begins] at plain

/-- The star of a command is a token of its own in front of the arguments. -/
theorem fitting_command {starred : Bool} {behindStar : List Token}
    (takes : Takes (fun token => starred && token.isCharacter '*') rest star behindStar)
    (inner : Piece.FitsWithin commands level (.arguments command position kinds arguments) after) :
    Piece.FitsWithin commands level (.command ⟨id, name, head, star, arguments, span⟩) after := by
  intro shallow legible
  simp only [Piece.depth, Command.depth] at shallow
  simp only [Piece.walk, Command.walk, List.forall_mem_cons] at legible
  refine .prepend (fun placed member => ?_) (inner (by rw [Piece.depth]; omega) legible.2)
  cases takes with
  | taken passes =>
    obtain rfl := List.mem_singleton.mp member
    exact begin_of_isCharacter (Bool.and_eq_true_iff.mp passes).2
  | left => cases member

/-- A token that is an argument begins no environment. -/
theorem fitting_single (accepted : cannotStartArgument head.token = false) (after : List Token) :
    Fitting commands after ((Node.leaf id head).segments commands) := by
  refine .quiet (List.forall_mem_singleton.mpr ?_) _
  by_contra word
  simp [cannotStartArgument, (by simpa using word : Token.isControlWord _ "begin" = true)]
    at accepted

/-- The name of an environment that is no verbatim one stands behind its `\begin`. -/
theorem fitting_opening {nameGroup : Node} {extra : List Argument} {behindName : List Token}
    (word : head.token.isControlWord "begin" = true)
    (leading : Leaves (rest.take (spacesAhead rest)) blanks)
    (named : Reads commands level mode (rest.drop (spacesAhead rest)) (.node nameGroup) behindName
      reports)
    (called : name = nameGroup.innerText.strip)
    (splits : Splits behindName ((placedArguments extra).map Placed.token ++ after))
    (first : Piece.FitsWithin commands level (.node nameGroup) behindName)
    (later : Piece.FitsWithin commands level (.arguments command position kinds extra) after) :
    Piece.FitsWithin commands level
      (.opening ⟨id, "begin", head, none, ⟨.mandatory, blanks, nameGroup⟩ :: extra, span⟩ name)
      after := by
  intro shallow legible labelled text
  simp only [Piece.depth, Command.depth, depthArguments] at shallow
  simp only [Piece.walk, Command.walk, walkArguments, List.forall_mem_cons,
    List.forall_mem_append] at legible
  have arguments := fitting_argument .mandatory leading (skipped_spacesAhead _)
    (first (by rw [Piece.depth]; omega) legible.2.1.2) splits
    (later (by rw [Piece.depth]; omega) legible.2.2)
  refine .cons (.token fun _ name found => ?_) arguments
  have label := (named.labelled_group word leading labelled).labelAhead
    ((placedArguments extra).map Placed.token ++ after)
  change name ∈ Token.labelAhead (Segment.tokens (segmentsArguments commands
    (⟨.mandatory, blanks, nameGroup⟩ :: extra)) ++ after) at found
  rw [tokens_segmentsArguments, placedArguments, List.map_append, List.append_assoc, label,
    ← called] at found
  cases found
  exact text

/-- The end of an environment fits with its name group. -/
theorem fitting_namedEnding {nameGroup : Node} (word : head.token.isControlWord "end" = true)
    (leading : Leaves (rest.take (spacesAhead rest)) blanks)
    (inner : Piece.FitsWithin commands level (.node nameGroup) after) :
    Piece.FitsWithin commands level
      (.ending ⟨id, "end", head, none, [⟨.mandatory, blanks, nameGroup⟩], span⟩ name) after := by
  intro shallow legible
  simp only [Piece.depth, Command.depth, depthArguments] at shallow
  simp only [Piece.walk, Command.walk, walkArguments, List.forall_mem_cons,
    List.forall_mem_append] at legible
  have none : Fitting commands after (segmentsArguments commands []) := .nil
  have arguments := fitting_argument .mandatory leading (skipped_spacesAhead _)
    (inner (by rw [Piece.depth]; omega) legible.2.1.2) (.refl _) none
  exact .cons (.token fun begins => absurd begins (by
    simp [begin_of_isControlWord_end word])) arguments

end

/-- **What is read is fitting.** -/
theorem Reads.fitting (read : Reads commands level mode ahead piece after reports) :
    piece.FitsWithin commands level after := by
  induction read with
  | stop => exact fun _ _ => .nil
  | next _ _ later first rest =>
    intro shallow legible
    simp only [Piece.FitsWithin, Piece.depth, depthAll] at shallow first rest
    simp only [Piece.walk, walkAll_cons, List.forall_mem_append] at legible
    exact (first (by omega) legible.1).append (by simpa using later.splits)
      (rest (by omega) legible.2)
  | unopened _ _ _ ih => exact ih
  | group _ opens _ closes ih => exact fitting_group opens closes ih
  | flatGroup deepest =>
    intro shallow
    simp only [Piece.depth, Node.depth] at shallow
    omega
  | strayGroupEnd ends =>
    exact fun _ _ => .quiet (List.forall_mem_singleton.mpr (begin_of_isEndGroup ends)) _
  | strayEnding _ _ ih => exact ih
  | math _ _ opens _ _ closes ih => exact fitting_math opens closes ih
  | environment _ opened content ended head inside behind =>
    exact fitting_environment opened content ended head inside behind
  | nameless _ word unbraced read ih => exact fitting_nameless word unbraced read ih
  | plainCommand plain read ih => exact fitting_plainCommand plain read ih
  | leaf single =>
    refine fun _ _ => .quiet (List.forall_mem_singleton.mpr ?_) _
    by_contra word
    simp [isControlSequence_of_isControlWord (by simpa using word)] at single
  | command _ _ _ starred _ ih => exact fitting_command starred ih
  | noArguments => exact fun _ _ => .nil
  | omitted _ _ ih => exact ih
  | optional _ leading _ later first ih =>
    intro shallow legible
    simp only [Piece.FitsWithin, Piece.depth, depthArguments] at shallow first ih
    simp only [Piece.walk, walkArguments, List.forall_mem_append] at legible
    exact fitting_argument .optional leading (skipped_spacesAhead _) (first (by omega) legible.1.2)
      later.splits (ih (by omega) legible.2)
  | bracket _ opens _ closes ih => exact fitting_bracket opens closes ih
  | missing => exact fun _ _ => .nil
  | braced leading _ _ later first ih =>
    intro shallow legible
    simp only [Piece.FitsWithin, Piece.depth, depthArguments] at shallow first ih
    simp only [Piece.walk, walkArguments, List.forall_mem_append] at legible
    exact fitting_argument .mandatory leading (skipped_gapAhead false _)
      (first (by omega) legible.1.2) later.splits (ih (by omega) legible.2)
  | single leading stands accepted _ later ih =>
    intro shallow legible
    simp only [Piece.FitsWithin, Piece.depth, depthArguments] at shallow ih
    simp only [Piece.walk, walkArguments, List.forall_mem_append] at legible
    exact fitting_argument .mandatory leading (skipped_gapAhead false _)
      (fitting_single accepted _) later.splits (ih (by omega) legible.2)
  | opening _ _ word leading _ named called read first ih =>
    exact fitting_opening word leading named called read.splits first ih
  | namedEnding _ _ word leading _ _ ih => exact fitting_namedEnding word leading ih
  | namelessEnding _ _ word =>
    exact fun _ _ => .quiet (List.forall_mem_singleton.mpr (begin_of_isControlWord_end word)) _
  | verbatimBody verbatim => exact fun _ _ text => absurd verbatim (by simp [text])
  | textBody _ text _ ih =>
    intro shallow legible _
    simp only [Piece.FitsWithin, Piece.depth] at shallow ih
    exact ih (by omega) legible
  | unended => exact fun _ _ => .nil
  | ended _ ih =>
    intro shallow legible
    simp only [Piece.FitsWithin, Piece.depth, Option.map_some, Option.getD_some] at shallow ih
    simp only [Piece.walk, Option.toList_some, List.flatMap_singleton] at legible
    simpa [Piece.IsFitting] using ih shallow legible

end Parser

namespace Document

/-- A document that is nested at most as deep as documents are, with legible environments. -/
structure IsLegible (commands : CommandTable) (document : Document) : Prop where
  shallow : document.root.depth ≤ Parser.maxNesting
  environments : ∀ node ∈ document.walk, node.isLegible commands = true

/-- **The segments of a document are those of its tokens.** -/
theorem fitting_ofTokens (tokens : List Token) (source : Text) (fileId : FileId)
    (commands : CommandTable)
    (legible : (ofTokens tokens source fileId commands).IsLegible commands) :
    Fitting commands [] ((ofTokens tokens source fileId commands).segments commands) := by
  obtain ⟨children, reports, derived⟩ := derived_ofTokens tokens source fileId commands
  obtain ⟨span, root⟩ := derived.root
  have shallow := legible.shallow
  have environments := legible.environments
  rw [walk, root, Node.walk, List.forall_mem_cons] at environments
  rw [root, Node.depth] at shallow
  have fitting : Fitting commands [] (segmentsAll commands children) :=
    derived.reads.fitting (by simpa using shallow) environments.2
  rw [segments, root, Node.segments]
  simpa using fitting

/-- The segments of a document have all its tokens, in their order. -/
theorem tokens_segments (commands : CommandTable) (document : Document) :
    Segment.tokens (document.segments commands) = document.root.tokens :=
  document.root.tokens_segments

end Document

end TexSource
