import TexSource.Proofs.Document.Defects

/-!
# Well-formed sources

The grammar of well-formed sources (`Written`) has two kinds of content, text and math, and says
of a list of tokens which groups, formulas and environments it is made of. Whatever it derives,
the parser reads without a report and builds as derived (`Document.parsed_ofTokens`), up to its
deepest level.

The names of environments are compared without blanks at their ends, so it is the name without
them that must belong to no verbatim environment.
-/

namespace TexSource

/-- What a well-formed source is made of. -/
inductive Shape where
  | token (token : Token)
  | group (content : List Shape)
  | math (display : Bool) (content : List Shape)
  | environment (name : Text) (body : List Shape)

/-- What a list of tokens is derived as. -/
inductive Around where
  | inside (inMath : Bool)
  /-- What stands behind the math shift that opens an inline formula: the rest of the formula,
  and the text behind it. -/
  | opened

/-- The kinds of token that open and close a formula, and whether the formula is a display. An
inline formula in single math shifts is not among them, since its closing shift may be one half
of a doubled one. -/
inductive Delimits : Token.Kind → Token.Kind → (display : Bool) → Prop where
  | shifts : Delimits (.mathShift true) (.mathShift true) true
  | parentheses :
      Delimits (.controlSymbol (some (.char '('))) (.controlSymbol (some (.char ')'))) false
  | brackets :
      Delimits (.controlSymbol (some (.char '['))) (.controlSymbol (some (.char ']'))) true

/-- Whether a token is a character, of whatever category. -/
def Token.isGlyph (token : Token) : Bool :=
  match token.kind with
  | .character _ _ => true
  | _ => false

/-- A name in braces. -/
inductive Named (name : Text) : List Token → Prop where
  | braced {opener closer : Token} {characters : List Token}
      (opens : opener.isBeginGroup = true) (nonempty : characters ≠ [])
      (plain : ∀ token ∈ characters, token.isGlyph = true)
      (spelt : Token.rawText characters = name) (closes : closer.isEndGroup = true) :
      Named name (opener :: (characters ++ [closer]))

/-- Whether a control symbol delimits formulas. -/
def Glyph.delimitsMath (glyph : Glyph) : Bool :=
  glyph = .char '(' || glyph = .char ')' || glyph = .char '[' || glyph = .char ']'

namespace CommandTable

variable (commands : CommandTable)

/-- Whether a token stands for itself: no brace, no math delimiter, no end of input, and no
control sequence that opens or closes anything or takes arguments. -/
def isPlain (token : Token) : Bool :=
  match token.kind with
  | .controlWord name => name ≠ "begin" && name ≠ "end" && commands.command name = .unknown
  | .controlSymbol glyph =>
    !glyph.any Glyph.delimitsMath && commands.command glyph.toList = .unknown
  | .beginGroup _ => false
  | .endGroup _ => false
  | .mathShift _ => false
  | .endOfInput => false
  | _ => true

/-- Whether a name belongs to no verbatim environment, and to none with arguments. -/
def isFree (name : Text) : Bool :=
  !commands.isVerbatim name && (commands.environment name).arguments = []

end CommandTable

/-- The grammar of well-formed sources with constructs in at most so many levels. -/
inductive Written (commands : CommandTable) (free : Text → Prop) :
    Around → (room : Nat) → List Token → List Shape → Prop where
  | nil {inMath : Bool} {room : Nat} : Written commands free (.inside inMath) room [] []
  | token {inMath : Bool} {room : Nat} {token : Token} {rest : List Token} {shapes : List Shape}
      (plain : commands.isPlain token = true)
      (later : Written commands free (.inside inMath) room rest shapes) :
      Written commands free (.inside inMath) room (token :: rest) (.token token :: shapes)
  /-- In a group stands text, also inside of a formula. -/
  | group {inMath : Bool} {room : Nat} {opener closer : Token} {content rest : List Token}
      {inner shapes : List Shape} (opens : opener.isBeginGroup = true)
      (within : Written commands free (.inside false) room content inner)
      (closes : closer.isEndGroup = true)
      (later : Written commands free (.inside inMath) (room + 1) rest shapes) :
      Written commands free (.inside inMath) (room + 1) (opener :: (content ++ closer :: rest))
        (.group inner :: shapes)
  | math {room : Nat} {opener closer : Token} {display : Bool} {content rest : List Token}
      {inner shapes : List Shape} (delimits : Delimits opener.kind closer.kind display)
      (within : Written commands free (.inside true) room content inner)
      (later : Written commands free (.inside false) (room + 1) rest shapes) :
      Written commands free (.inside false) (room + 1) (opener :: (content ++ closer :: rest))
        (.math display inner :: shapes)
  | inline {room : Nat} {opener : Token} {rest : List Token} {shapes : List Shape}
      (opens : opener.kind = .mathShift false)
      (later : Written commands free .opened room rest shapes) :
      Written commands free (.inside false) room (opener :: rest) shapes
  | last {room : Nat} {closer : Token} {content rest : List Token} {inner shapes : List Shape}
      (within : Written commands free (.inside true) room content inner)
      (closes : closer.kind = .mathShift false)
      (later : Written commands free (.inside false) (room + 1) rest shapes) :
      Written commands free .opened (room + 1) (content ++ closer :: rest)
        (.math false inner :: shapes)
  /-- A doubled math shift closes one inline formula and opens the next one. -/
  | joined {room : Nat} {shift : Token} {content rest : List Token} {inner shapes : List Shape}
      (within : Written commands free (.inside true) room content inner)
      (doubled : shift.kind = .mathShift true)
      (later : Written commands free .opened (room + 1) rest shapes) :
      Written commands free .opened (room + 1) (content ++ shift :: rest)
        (.math false inner :: shapes)
  | environment {inMath : Bool} {room : Nat} {head last : Token} {name : Text}
      {label again content rest : List Token} {inner shapes : List Shape}
      (begins : head.isControlWord "begin" = true) (named : Named name label)
      (allowed : free name) (within : Written commands free (.inside inMath) room content inner)
      (ends : last.isControlWord "end" = true) (same : Named name again)
      (later : Written commands free (.inside inMath) (room + 1) rest shapes) :
      Written commands free (.inside inMath) (room + 1)
        (head :: (label ++ (content ++ last :: (again ++ rest))))
        (.environment name inner :: shapes)

/-- A node that is built as derived: with its delimiters, and with an end of its own. -/
inductive Shaped : Shape → Node → Prop where
  | leaf (id : NodeId) (placed : Placed) : Shaped (.token placed.token) (.leaf id placed)
  | command (id : NodeId) (head : Placed) (span : Span) :
      Shaped (.token head.token) (.command ⟨id, head.token.value, head, none, [], span⟩)
  | group (id : NodeId) (opener closer : Placed) (span : Span) {content : List Shape}
      {children : List Node} (within : List.Forall₂ Shaped content children) :
      Shaped (.group content) (.group id .brace (some opener) children (some closer) span)
  | math (id : NodeId) (display : Bool) (opener closer : Placed) (span : Span)
      {content : List Shape} {children : List Node}
      (within : List.Forall₂ Shaped content children) :
      Shaped (.math display content) (.math id display opener children (some closer) span)
  | environment (id : NodeId) (name : Text) (opening ending : Command) (span : Span)
      {content : List Shape} {body : List Node} (within : List.Forall₂ Shaped content body) :
      Shaped (.environment name content)
        (.environment id name.strip opening body (some ending) true span)

namespace Parser

variable {commands : CommandTable} {free : Text → Prop} {level : Nat} {mode : Mode}
  {closing : Closing} {ahead middle behind after rest : List Token} {token : Token}
  {shape : Shape} {shapes : List Shape} {node : Node} {nodes : List Node} {reports : List Report}

/-- Whatever node is read first has a shape, and nothing is reported. -/
def Makes (commands : CommandTable) (level : Nat) (mode : Mode) (ahead : List Token)
    (shape : Shape) (behind : List Token) : Prop :=
  ∀ ⦃node after reports⦄, Reads commands level mode ahead (.node node) after reports →
    Shaped shape node ∧ after = behind ∧ reports = []

/-- Whatever nodes are read, the first ones have some shapes, and nothing is reported of them. -/
def Begins (commands : CommandTable) (level : Nat) (mode : Mode) (closing : Closing)
    (ahead : List Token) (shapes : List Shape) (behind : List Token) : Prop :=
  ∀ ⦃nodes after reports⦄,
    Reads commands level mode ahead (.sequence closing nodes) after reports →
    ∃ first later, nodes = first ++ later ∧ List.Forall₂ Shaped shapes first ∧
      Reads commands level mode behind (.sequence closing later) after reports

namespace Begins

/-- No shapes begin with nothing read. -/
theorem nil (ahead : List Token) : Begins commands level mode closing ahead [] ahead :=
  fun nodes _ _ read => ⟨[], nodes, rfl, .nil, read⟩

/-- One more node in front. -/
theorem cons (inside : endsBefore closing mode token = false)
    (first : Makes commands level mode (token :: rest) shape middle)
    (later : Begins commands level mode closing middle shapes behind) :
    Begins commands level mode closing (token :: rest) (shape :: shapes) behind := by
  intro nodes after reports read
  cases read with
  | stop halts => exact absurd (halts token rfl) (by simp [inside])
  | next _ front rest =>
    obtain ⟨shaped, rfl, rfl⟩ := first front
    obtain ⟨before, left, rfl, fit, read⟩ := later rest
    exact ⟨_ :: before, left, rfl, .cons shaped fit, read⟩

/-- Nothing is read beyond a token that ends the sequence. -/
theorem whole (begins : Begins commands level mode closing ahead shapes (token :: rest))
    (ends : endsBefore closing mode token = true)
    (read : Reads commands level mode ahead (.sequence closing nodes) after reports) :
    List.Forall₂ Shaped shapes nodes ∧ after = token :: rest ∧ reports = [] := by
  obtain ⟨first, later, rfl, fit, read⟩ := begins read
  cases read with
  | stop => exact ⟨by simpa using fit, rfl, rfl⟩
  | next inside => exact absurd ends (by simp [inside])

end Begins

/-- A sequence goes on before a token that neither closes anything nor is an `\end`. -/
theorem endsBefore_eq_false (unclosed : token.isEndGroup = false)
    (unended : token.isControlWord "end" = false) (other : closing.isAt token = false) :
    endsBefore closing mode token = false := by
  simp [endsBefore, unclosed, unended, other]

/-- An end starts with `\end`. -/
theorem Reads.isControlWord_ending {invocation : Command} {name : Text}
    (read : Reads commands level mode (token :: rest) (.ending invocation name) after reports) :
    token.isControlWord "end" = true := by
  cases read with
  | namedEnding _ _ word => exact word
  | namelessEnding _ _ word => exact word

/-- A begin starts with `\begin`. -/
theorem Reads.isControlWord_opening {invocation : Command} {name : Text}
    (read : Reads commands level mode (token :: rest) (.opening invocation name) after reports) :
    token.isControlWord "begin" = true := by
  cases read with
  | opening _ _ word => exact word

/-- A command that takes no arguments. -/
theorem Reads.unknown_command {invocation : Command}
    (unknown : commands.command token.value = .unknown)
    (read : Reads commands level mode (token :: rest) (.command invocation) after reports) :
    Shaped (.token token) (.command invocation) ∧ after = rest ∧ reports = [] := by
  generalize signature : commands.command token.value = known at unknown
  subst unknown
  cases read with
  | command _ _ _ starred read =>
    rw [signature] at starred read
    cases starred with
    | taken passes => cases passes
    | left =>
      cases read with
      | noArguments => exact ⟨.command .., rfl, rfl⟩

/-- A token in text or in a formula that starts no construct and ends none. -/
structure Ordinary (commands : CommandTable) (token : Token) : Prop where
  beginGroup : token.isBeginGroup = false
  endGroup : token.isEndGroup = false
  begin : token.isControlWord "begin" = false
  ending : token.isControlWord "end" = false
  math : opensMath token = false
  unknown : token.isControlSequence = true → commands.command token.value = .unknown

/-- A plain token starts no construct. -/
theorem ordinary_of_isPlain (plain : commands.isPlain token = true) :
    Ordinary commands token := by
  unfold CommandTable.isPlain at plain
  cases kind : token.kind with
  | controlSymbol glyph =>
    have apart : ∀ delimiter, glyph = some delimiter → delimiter.delimitsMath = false := by
      rintro delimiter rfl
      simp_all
    have paren : glyph ≠ some (.char '(') := fun same => absurd (apart _ same) (by decide)
    have bracket : glyph ≠ some (.char '[') := fun same => absurd (apart _ same) (by decide)
    constructor <;> simp_all [Token.isBeginGroup, Token.isEndGroup, Token.isControlWord, opensMath,
      Token.isMathShift, Token.value, Token.Kind.value]
  | _ =>
    constructor <;> simp_all [Token.isBeginGroup, Token.isEndGroup, Token.isControlWord, opensMath,
      Token.isMathShift, Token.isControlSequence, Token.value, Token.Kind.value]

/-- Where a sequence may end: a formula ends at its own delimiter, which text has no
place for. -/
def Closing.Fits (inMath : Bool) : Closing → Prop
  | .never => True
  | .bracket => False
  | .shift => inMath = true
  | .displayShift => inMath = true
  | .symbol glyph => inMath = true ∧ glyph.delimitsMath = true

/-- A plain token ends no sequence. -/
theorem isAt_of_isPlain (plain : commands.isPlain token = true) {inMath : Bool}
    (fits : closing.Fits inMath) : closing.isAt token = false := by
  unfold CommandTable.isPlain at plain
  cases closing with
  | never => rfl
  | bracket => cases fits
  | shift => cases kind : token.kind <;> simp_all [Closing.isAt, Token.isMathShift]
  | displayShift => cases kind : token.kind <;> simp_all [Closing.isAt]
  | symbol glyph =>
    have delimits := fits.2
    by_contra stands
    have kind : token.kind = .controlSymbol (some glyph) := by simpa [Closing.isAt] using stands
    simp [kind, delimits] at plain

/-- A plain token makes a leaf. -/
theorem makes_plain (plain : commands.isPlain token = true) (rest : List Token) :
    Makes commands level mode (token :: rest) (.token token) rest := by
  have ordinary := ordinary_of_isPlain plain
  intro node after reports read
  cases read with
  | plainCommand _ read =>
    have sequence := read.sequence_command
    exact read.unknown_command (ordinary.unknown sequence)
  | leaf => exact ⟨.leaf .., rfl, rfl⟩
  | unopened _ opens => simp [opensNesting, ordinary.begin, ordinary.math] at opens
  | group _ opens => simp [ordinary.beginGroup] at opens
  | flatGroup _ opens => simp [ordinary.beginGroup] at opens
  | strayGroupEnd ends => simp [ordinary.endGroup] at ends
  | strayEnding _ read => exact absurd read.isControlWord_ending (by simp [ordinary.ending])
  | math _ _ opens => simp [ordinary.math] at opens
  | environment _ opened => exact absurd opened.isControlWord_opening (by simp [ordinary.begin])
  | nameless _ word => simp [ordinary.begin] at word

/-- Braces around shapes make a group of them. -/
theorem makes_group {closer : Token} (room : level < maxNesting)
    (opens : token.isBeginGroup = true)
    (within : Begins commands (level + 1) ⟨false, false, true⟩ .never rest shapes
      (closer :: behind)) (closes : closer.isEndGroup = true) :
    Makes commands level mode (token :: rest) (.group shapes) behind := by
  obtain ⟨glyph, kind⟩ := Token.kind_of_isBeginGroup opens
  intro node after reports read
  cases read with
  | group _ _ inside takes =>
    obtain ⟨fit, rfl, rfl⟩ := within.whole (by simp [endsBefore, closes]) inside
    cases takes with
    | taken => exact ⟨.group _ _ _ _ fit, rfl, rfl⟩
    | left fails => simp [closes] at fails
  | unopened deepest => exact absurd deepest (Nat.ne_of_lt room)
  | flatGroup deepest => exact absurd deepest (Nat.ne_of_lt room)
  | strayGroupEnd ends => simp [Token.isEndGroup, kind] at ends
  | strayEnding _ read =>
    exact absurd read.isControlWord_ending (by simp [Token.isControlWord, kind])
  | math _ _ formula => simp [opensMath, Token.isMathShift, kind] at formula
  | environment _ opened =>
    exact absurd opened.isControlWord_opening (by simp [Token.isControlWord, kind])
  | nameless _ word => simp [Token.isControlWord, kind] at word
  | plainCommand plain => simp [startsConstruct, opens] at plain
  | leaf _ plain => simp [startsConstruct, opens] at plain

theorem isControlWord_of_opensMath (opens : opensMath token = true) (name : Text) :
    token.isControlWord name = false := by
  unfold opensMath Token.isMathShift at opens
  unfold Token.isControlWord
  cases kind : token.kind <;> simp_all

/-- Shifts around shapes make a formula of them. -/
theorem makes_math {closer half : Token} (room : level < maxNesting) (text : mode.inMath = false)
    (opens : opensMath token = true) (closed : closing = .ofOpener token)
    (within : Begins commands (level + 1) { mode with inMath := true } closing rest shapes
      (closer :: middle)) (ends : closing.isAt closer = true)
    (front : closing.ahead (closer :: middle) = half :: behind)
    (closes : closing.isAt half = true) :
    Makes commands level mode (token :: rest) (.math closing.isDisplay shapes) behind := by
  have brace := Token.isBrace_eq_false_iff.mp (isBrace_of_opensMath opens)
  have word := isControlWord_of_opensMath opens
  intro node after reports read
  cases read with
  | math _ _ _ same inside takes =>
    subst same
    subst closed
    obtain ⟨fit, rfl, rfl⟩ := within.whole (by simp [endsBefore, ends]) inside
    rw [front] at takes
    cases takes with
    | taken => exact ⟨.math _ _ _ _ _ fit, rfl, rfl⟩
    | left fails => simp [closes] at fails
  | unopened deepest => exact absurd deepest (Nat.ne_of_lt room)
  | flatGroup deepest => exact absurd deepest (Nat.ne_of_lt room)
  | group _ begins => simp [brace.1] at begins
  | strayGroupEnd groupEnd => simp [brace.2] at groupEnd
  | strayEnding _ read => exact absurd read.isControlWord_ending (by simp [word])
  | environment _ opened => exact absurd opened.isControlWord_opening (by simp [word])
  | nameless _ begins => simp [word] at begins
  | plainCommand plain => simp [startsConstruct, room, text, opens] at plain
  | leaf _ plain => simp [startsConstruct, room, text, opens] at plain

/-- Plain tokens make leaves, one after another. -/
theorem begins_plain {tokens : List Token} (plain : ∀ token ∈ tokens, commands.isPlain token = true)
    (behind : List Token) :
    Begins commands level mode .never (tokens ++ behind) (tokens.map .token) behind := by
  induction tokens with
  | nil => exact .nil behind
  | cons token rest ih =>
    rw [List.forall_mem_cons] at plain
    have ordinary := ordinary_of_isPlain plain.1
    exact .cons (endsBefore_eq_false ordinary.endGroup ordinary.ending rfl)
      (makes_plain plain.1 _) (ih plain.2)

/-- A glyph is plain. -/
theorem isPlain_of_isGlyph (glyph : token.isGlyph = true) : commands.isPlain token = true := by
  unfold Token.isGlyph at glyph
  unfold CommandTable.isPlain
  cases kind : token.kind <;> simp_all

/-- The tokens of nodes that are built of plain tokens. -/
theorem tokens_of_shaped {tokens : List Token}
    (fit : List.Forall₂ Shaped (tokens.map .token) nodes) :
    (placedAll nodes).map Placed.token = tokens := by
  induction tokens generalizing nodes with
  | nil =>
    cases fit
    rfl
  | cons token rest ih =>
    cases fit with
    | cons first later =>
      rw [placedAll_cons, List.map_append, ih later]
      cases first <;> rfl

/-- The text within a name group is the name. -/
theorem innerText_named {name : Text} {label : List Token} (named : Named name label)
    (room : level < maxNesting)
    (read : Reads commands level mode (label ++ behind) (.node node) after reports) :
    node.innerText = name ∧ after = behind ∧ reports = [] := by
  obtain @⟨opener, closer, characters, opens, -, plain, spelt, closes⟩ := named
  rw [List.cons_append, List.append_assoc] at read
  have within : Begins commands (level + 1) ⟨false, false, true⟩ .never
      (characters ++ ([closer] ++ behind)) (characters.map .token) ([closer] ++ behind) :=
    begins_plain (fun token member => isPlain_of_isGlyph (plain token member)) _
  obtain ⟨shaped, rest, silent⟩ := makes_group room opens within closes read
  refine ⟨?_, rest, silent⟩
  cases shaped with
  | group _ _ _ _ fit => rw [Node.innerText, tokens_of_shaped fit, spelt]

theorem spacesAhead_named {name : Text} {label : List Token} (named : Named name label)
    (behind : List Token) : spacesAhead (label ++ behind) = 0 := by
  obtain ⟨opens, -, -, -, -⟩ := named
  obtain ⟨glyph, kind⟩ := Token.kind_of_isBeginGroup opens
  simp [spacesAhead, Token.isSpace, kind]

theorem isBeginGroup_named {name : Text} {label : List Token} (named : Named name label)
    (behind : List Token) : (label ++ behind).head?.any Token.isBeginGroup = true := by
  obtain ⟨opens, -, -, -, -⟩ := named
  simpa using opens

/-- The end of an environment has the name that is written. -/
theorem Reads.named_ending {name found : Text} {label : List Token} {invocation : Command}
    (named : Named name label) (room : level < maxNesting)
    (read : Reads commands level mode (token :: (label ++ behind)) (.ending invocation found) after
      reports) :
    found = name.strip ∧ after = behind ∧ reports = [] := by
  have braced := isBeginGroup_named named behind
  cases read with
  | namedEnding _ _ _ _ _ read =>
    rw [spacesAhead_named named, List.drop_zero] at read
    obtain ⟨text, rest, silent⟩ := innerText_named named room read
    exact ⟨by rw [text], rest, silent⟩
  | namelessEnding _ _ _ unbraced =>
    rw [spacesAhead_named named, List.drop_zero, braced] at unbraced
    cases unbraced

/-- The begin of an environment has the name that is written. -/
theorem Reads.named_opening {name found : Text} {label : List Token} {invocation : Command}
    (named : Named name label) (bare : (commands.environment name.strip).arguments = [])
    (room : level < maxNesting)
    (read : Reads commands level mode (token :: (label ++ behind)) (.opening invocation found) after
      reports) :
    found = name.strip ∧ after = behind ∧ reports = [] := by
  cases read with
  | opening _ _ _ _ _ read called extra =>
    rw [spacesAhead_named named, List.drop_zero] at read
    obtain ⟨text, rfl, rfl⟩ := innerText_named named room read
    rw [text] at called
    subst called
    rw [bare] at extra
    cases extra
    exact ⟨rfl, rfl, rfl⟩

/-- An end with the name of the begin matches. -/
theorem mismatch_self (name : Text) (opening invocation : Command) :
    mismatch name opening (some (invocation, name)) = none :=
  if_pos rfl

theorem isControlWord_end_of_begin (begins : token.isControlWord "begin" = true) :
    token.isControlWord "end" = false := by
  by_contra ends
  have same := (value_of_isControlWord begins).symm.trans
    (value_of_isControlWord (by simpa using ends))
  exact absurd same (by decide)

/-- A begin and an end around shapes make an environment of them. -/
theorem makes_environment {name : Text} {label again : List Token} {last : Token}
    (room : level < maxNesting) (begins : token.isControlWord "begin" = true)
    (named : Named name label) (free : commands.isFree name.strip = true)
    (within : Begins commands (level + 1) { mode with inEnvironment := true } .never rest shapes
      (last :: (again ++ behind)))
    (ends : last.isControlWord "end" = true) (same : Named name again) :
    Makes commands level mode (token :: (label ++ rest)) (.environment name shapes) behind := by
  obtain ⟨text, bare⟩ : commands.isVerbatim name.strip = false ∧
      (commands.environment name.strip).arguments = [] := by
    simpa [CommandTable.isFree] using free
  have brace := Token.isBrace_eq_false_iff.mp
    (isBrace_of_isControlSequence (isControlSequence_of_isControlWord begins))
  have kind : token.kind = .controlWord "begin" := by
    unfold Token.isControlWord at begins
    cases kind : token.kind <;> simp_all
  have unended := isControlWord_end_of_begin begins
  intro node after reports read
  cases read with
  | environment _ opened content ended =>
    obtain ⟨rfl, rfl, rfl⟩ := opened.named_opening named bare room
    cases content with
    | verbatimBody verbatim => simp [text] at verbatim
    | textBody _ _ inside =>
      obtain ⟨fit, rfl, rfl⟩ := within.whole (by simp [endsBefore, ends]) inside
      cases ended with
      | unended absent => simp [ends] at absent
      | ended read =>
        obtain ⟨rfl, rfl, rfl⟩ := read.named_ending same room
        rw [mismatch_self]
        exact ⟨.environment _ _ _ _ _ fit, rfl, rfl⟩
  | unopened deepest => exact absurd deepest (Nat.ne_of_lt room)
  | flatGroup deepest => exact absurd deepest (Nat.ne_of_lt room)
  | group _ opens => simp [brace.1] at opens
  | strayGroupEnd groupEnd => simp [brace.2] at groupEnd
  | strayEnding _ read => exact absurd read.isControlWord_ending (by simp [unended])
  | math _ _ formula => simp [opensMath, Token.isMathShift, kind] at formula
  | nameless _ _ unbraced =>
    rw [spacesAhead_named named, List.drop_zero, isBeginGroup_named named] at unbraced
    cases unbraced
  | plainCommand plain => simp [startsConstruct, room, begins] at plain
  | leaf _ plain => simp [startsConstruct, room, begins] at plain

/-- Outside of formulas no sequence ends at a shift. -/
theorem Closing.Fits.eq_never (fits : closing.Fits false) : closing = .never := by
  cases closing with
  | never => rfl
  | bracket => cases fits
  | shift => cases fits
  | displayShift => cases fits
  | symbol glyph => cases fits.1

/-- The closing of a formula that is no inline one in math shifts. -/
structure Pairs (opener closer : Token) (display : Bool) : Prop where
  opens : opensMath opener = true
  display : (Closing.ofOpener opener).isDisplay = display
  closes : (Closing.ofOpener opener).isAt closer = true
  whole : Closing.ofOpener opener ≠ .shift
  fits : (Closing.ofOpener opener).Fits true

/-- Delimiters that belong together make a pair. -/
theorem pairs_of_delimits {opener closer : Token} {display : Bool}
    (delimits : Delimits opener.kind closer.kind display) : Pairs opener closer display := by
  generalize front : opener.kind = first at delimits
  generalize back : closer.kind = last at delimits
  cases delimits <;> constructor <;>
    simp [opensMath, Token.isMathShift, Closing.ofOpener, front, back, Closing.isDisplay,
      Closing.isAt, Closing.Fits, Glyph.delimitsMath]

/-- The tokens ahead where derived ones are read: the opening shift of a formula that they go on
with is still ahead. -/
def Stands (mode : Mode) (closing : Closing) (tokens ahead : List Token) : Around → Prop
  | .inside inMath => mode.inMath = inMath ∧ closing.Fits inMath ∧ ahead = tokens
  | .opened => mode.inMath = false ∧ closing = .never ∧
      ∃ opener : Token, opener.kind = .mathShift false ∧ ahead = opener :: tokens

theorem isAt_of_isBeginGroup (opens : token.isBeginGroup = true) : closing.isAt token = false := by
  by_contra closes
  have other := isBrace_of_isAt (by simpa using closes)
  simp [Token.isBrace, opens] at other

theorem isAt_of_isControlWord {name : Text} (word : token.isControlWord name = true) :
    closing.isAt token = false := by
  unfold Token.isControlWord at word
  cases kind : token.kind <;>
    cases closing <;> simp_all [Closing.isAt, Token.isCharacter, Token.isMathShift]

/-- No sequence of nodes in text ends before a formula. -/
theorem endsBefore_of_opensMath (opens : opensMath token = true) :
    endsBefore .never mode token = false :=
  endsBefore_eq_false (Token.isBrace_eq_false_iff.mp (isBrace_of_opensMath opens)).2
    (isControlWord_of_opensMath opens _) rfl

/-- A shift opens a formula. -/
theorem opensMath_of_mathShift {doubled : Bool} (kind : token.kind = .mathShift doubled) :
    opensMath token = true := by
  simp [opensMath, Token.isMathShift, kind]

/-- An inline formula in math shifts, where the closing shift may be the first half of a doubled
one. -/
theorem makes_inline {opener closer half : Token} (room : level < maxNesting)
    (text : mode.inMath = false) (opens : opener.kind = .mathShift false)
    (within : Begins commands (level + 1) { mode with inMath := true } .shift rest shapes
      (closer :: middle))
    (ends : closer.isMathShift = true) (front : splitFront (closer :: middle) = half :: behind)
    (closes : half.isMathShift = true) :
    Makes commands level mode (opener :: rest) (.math false shapes) behind := by
  have closed : Closing.shift = .ofOpener opener := by simp [Closing.ofOpener, opens]
  exact makes_math room text (opensMath_of_mathShift opens) closed within ends front closes

/-- What the grammar derives is read as derived, whatever stands behind it. -/
theorem begins_of_written {around : Around} {room : Nat} {tokens : List Token}
    (written : Written commands free around room tokens shapes)
    (allows : ∀ name, free name → commands.isFree name.strip = true)
    (fits : level + room ≤ maxNesting) (behind : List Token)
    (stands : Stands mode closing (tokens ++ behind) ahead around) :
    Begins commands level mode closing ahead shapes behind := by
  induction written generalizing level mode closing ahead behind with
  | nil =>
    obtain ⟨-, -, rfl⟩ := stands
    exact .nil _
  | token plain _ ih =>
    obtain ⟨same, ends, rfl⟩ := stands
    have ordinary := ordinary_of_isPlain plain
    exact .cons (endsBefore_eq_false ordinary.endGroup ordinary.ending (isAt_of_isPlain plain ends))
      (makes_plain plain _) (ih fits behind ⟨same, ends, rfl⟩)
  | @group _ _ opener closer content rest inner _ opens _ closes _ ih ih' =>
    obtain ⟨same, ends, rfl⟩ := stands
    obtain ⟨glyph, kind⟩ := Token.kind_of_isBeginGroup opens
    have within : Begins commands (level + 1) ⟨false, false, true⟩ .never
        (content ++ closer :: (rest ++ behind)) inner (closer :: (rest ++ behind)) :=
      ih (by omega) _ ⟨rfl, trivial, rfl⟩
    have later := ih' fits behind ⟨same, ends, rfl⟩
    simp only [List.cons_append, List.append_assoc]
    refine .cons ?_ (makes_group (by omega) opens within closes) later
    exact endsBefore_eq_false (by simp [Token.isEndGroup, kind])
      (by simp [Token.isControlWord, kind]) (isAt_of_isBeginGroup opens)
  | @math _ opener closer display content rest inner shapes delimits _ _ ih ih' =>
    obtain ⟨same, ends, rfl⟩ := stands
    obtain rfl := ends.eq_never
    have pairs := pairs_of_delimits delimits
    have within : Begins commands (level + 1) { mode with inMath := true } (.ofOpener opener)
        (content ++ closer :: (rest ++ behind)) inner (closer :: (rest ++ behind)) :=
      ih (by omega) _ ⟨rfl, pairs.fits, rfl⟩
    have later : Begins commands level mode .never (rest ++ behind) shapes behind :=
      ih' fits behind ⟨same, trivial, rfl⟩
    have formula := makes_math (by omega) same pairs.opens rfl within pairs.closes
      (if_neg pairs.whole) pairs.closes
    rw [pairs.display] at formula
    simp only [List.cons_append, List.append_assoc]
    exact .cons (endsBefore_of_opensMath pairs.opens) formula later
  | inline opens _ ih =>
    obtain ⟨same, ends, rfl⟩ := stands
    exact ih fits behind ⟨same, ends.eq_never, _, opens, rfl⟩
  | @last _ closer content rest inner shapes _ closes _ ih ih' =>
    obtain ⟨same, rfl, opener, opens, rfl⟩ := stands
    have within : Begins commands (level + 1) { mode with inMath := true } .shift
        (content ++ closer :: (rest ++ behind)) inner (closer :: (rest ++ behind)) :=
      ih (by omega) _ ⟨rfl, rfl, rfl⟩
    have later : Begins commands level mode .never (rest ++ behind) shapes behind :=
      ih' fits behind ⟨same, trivial, rfl⟩
    have shift : closer.isMathShift = true := by simp [Token.isMathShift, closes]
    have front : splitFront (closer :: (rest ++ behind)) = closer :: (rest ++ behind) :=
      if_neg (by simp [closes])
    simp only [List.append_assoc, List.cons_append]
    exact .cons (endsBefore_of_opensMath (opensMath_of_mathShift opens))
      (makes_inline (by omega) same opens within shift front shift) later
  | @joined _ shift content rest inner shapes _ doubled _ ih ih' =>
    obtain ⟨same, rfl, opener, opens, rfl⟩ := stands
    have within : Begins commands (level + 1) { mode with inMath := true } .shift
        (content ++ shift :: (rest ++ behind)) inner (shift :: (rest ++ behind)) :=
      ih (by omega) _ ⟨rfl, rfl, rfl⟩
    -- The second half of the doubled shift opens the next formula.
    have later : Begins commands level mode .never ((splitShift shift).2 :: (rest ++ behind)) shapes
        behind := ih' fits behind ⟨same, rfl, _, rfl, rfl⟩
    have front : splitFront (shift :: (rest ++ behind)) =
        (splitShift shift).1 :: (splitShift shift).2 :: (rest ++ behind) := if_pos doubled
    simp only [List.append_assoc, List.cons_append]
    exact .cons (endsBefore_of_opensMath (opensMath_of_mathShift opens))
      (makes_inline (by omega) same opens within (by simp [Token.isMathShift, doubled]) front rfl)
      later
  | @environment _ _ head last name label again content rest inner shapes begins named allowed _
      ends same _ ih ih' =>
    obtain ⟨place, fitting, rfl⟩ := stands
    have within : Begins commands (level + 1) { mode with inEnvironment := true } .never
        (content ++ last :: (again ++ (rest ++ behind))) inner
        (last :: (again ++ (rest ++ behind))) :=
      ih (by omega) _ ⟨place, trivial, rfl⟩
    have later := ih' fits behind ⟨place, fitting, rfl⟩
    have sequence := isControlSequence_of_isControlWord begins
    simp only [List.cons_append, List.append_assoc]
    refine .cons ?_ (makes_environment (by omega) begins named (allows _ allowed) within ends same)
      later
    exact endsBefore_eq_false
      (Token.isBrace_eq_false_iff.mp (isBrace_of_isControlSequence sequence)).2
      (isControlWord_end_of_begin begins) (isAt_of_isControlWord begins)

end Parser

/-- Whether an environment is closed by its own end. -/
def Node.isMatched : Node → Bool
  | .environment _ _ _ _ _ matched _ => matched
  | _ => true

/-- A node without a problem is closed and matched. -/
theorem Role.finished_of_problem {role : Role} {node : Node} (none : role.problem node = none) :
    node.isClosed = true ∧ node.isMatched = true := by
  cases node with
  | leaf | command | inclusion => exact ⟨rfl, rfl⟩
  | group id delimiter opener children closer span =>
    cases delimiter <;> cases closer <;> first | exact ⟨rfl, rfl⟩ | cases none
  | math id display opener children closer span =>
    cases closer with
    | none => cases none
    | some closer => exact ⟨rfl, rfl⟩
  | environment id name opening body ending matched span =>
    cases matched with
    | true => exact ⟨rfl, rfl⟩
    | false => cases ending <;> cases none

namespace Document

/-- A document is built as derived: nothing is reported, the nodes are those of the derivation,
every group and every formula is closed and every environment has an end of its own. -/
structure ParsedAs (shapes : List Shape) (document : Document) : Prop where
  silent : document.diagnostics = []
  shaped : List.Forall₂ Shaped shapes document.root.children
  finished : ∀ node ∈ document.walk, node.isClosed = true ∧ node.isMatched = true

/-- **Well-formed sources are parsed silently and as derived.** -/
theorem parsedAs_ofTokens {commands : CommandTable} {tokens : List Token} {shapes : List Shape}
    (written : Written commands (fun name => commands.isFree name.strip = true) (.inside false)
      Parser.maxNesting (contentOf tokens) shapes) (source : Text) (fileId : FileId) :
    ParsedAs shapes (ofTokens tokens source fileId commands) := by
  obtain ⟨children, reports, derived⟩ := derived_ofTokens tokens source fileId commands
  generalize ofTokens tokens source fileId commands = document at derived
  obtain ⟨span, root⟩ := derived.root
  have begins : Parser.Begins commands 0 ⟨false, false, false⟩ .never (contentOf tokens) shapes
      [] :=
    Parser.begins_of_written written (fun _ => id) (by omega) []
      ⟨rfl, trivial, (List.append_nil _).symm⟩
  obtain ⟨first, later, rfl, fit, read⟩ := begins derived.reads
  have silent : reports = [] ∧ later = [] := by
    cases read
    exact ⟨rfl, rfl⟩
  obtain ⟨rfl, rfl⟩ := silent
  rw [List.append_nil] at root derived
  constructor
  case silent => exact derived.diagnostics
  case shaped =>
    rw [root]
    exact fit
  case finished =>
    intro node member
    rw [Document.walk, root] at member
    rcases List.mem_cons.mp member with rfl | inside
    · exact ⟨rfl, rfl⟩
    · have walked : ((locatedAll commands 0 .text first).map Prod.snd).Perm (walkAll first) :=
        locatedAll_perm_walkAll 0 .text first
      obtain ⟨⟨role, node⟩, found, rfl⟩ := List.mem_map.mp (walked.symm.subset inside)
      have defects := List.filterMap_eq_nil_iff.mp derived.reads.defects.symm _ found
      exact Role.finished_of_problem (by simpa [Role.defect] using defects)

theorem parsedAs_adjacentFormulas :
    Written .standard (fun name => CommandTable.standard.isFree name.strip = true) (.inside false)
        Parser.maxNesting (contentOf adjacentFormulas)
        [.math false [.token adjacentFormulas[1]], .math false [.token adjacentFormulas[3]]] ∧
      ParsedAs [.math false [.token adjacentFormulas[1]], .math false [.token adjacentFormulas[3]]]
        (ofTokens adjacentFormulas "$a$$b$" 0 .standard) := by
  have content : contentOf adjacentFormulas = adjacentFormulas := by decide
  have letter : ∀ token : Token, token.isGlyph = true →
      Written .standard (fun name => CommandTable.standard.isFree name.strip = true)
        (.inside true) 63 [token] [.token token] :=
    fun token glyph => .token (Parser.isPlain_of_isGlyph glyph) .nil
  have written : Written .standard (fun name => CommandTable.standard.isFree name.strip = true)
      (.inside false) Parser.maxNesting (contentOf adjacentFormulas)
      [.math false [.token adjacentFormulas[1]], .math false [.token adjacentFormulas[3]]] := by
    rw [content]
    exact .inline rfl (.joined (letter _ rfl) rfl (.last (letter _ rfl) rfl .nil))
  exact ⟨written, parsedAs_ofTokens written _ _⟩

/-- A token of a kind. -/
def tokenOf (kind : Token.Kind) : Token :=
  { kind := kind, raw := kind.value, span := default }

/-- The name of a verbatim environment, with a blank before it. -/
def paddedName : Text := "\u00a0comment"

/-- A name in braces. -/
def labelOf (name : Text) : List Token :=
  tokenOf (.beginGroup (.char '\x7b')) ::
    (name.map (fun glyph => tokenOf (.character glyph .letter)) ++
      [tokenOf (.endGroup (.char '\x7d'))])

/-- A formula in an environment with this name. -/
def paddedVerbatim : List Token :=
  tokenOf (.controlWord "begin") :: (labelOf paddedName ++
    ([tokenOf (.mathShift false), tokenOf (.character (.char 'x') .letter),
        tokenOf (.mathShift false)] ++
      tokenOf (.controlWord "end") :: (labelOf paddedName ++ [])))

theorem named_paddedName : Named paddedName (labelOf paddedName) :=
  .braced rfl (by decide) (by decide) (by decide) rfl

/-- The condition on names is one on names without blanks at their ends. -/
theorem not_parsedAs_paddedVerbatim :
    Written .standard (fun name => CommandTable.standard.isFree name = true) (.inside false)
        Parser.maxNesting (contentOf paddedVerbatim)
        [.environment paddedName
          [.math false [.token (tokenOf (.character (.char 'x') .letter))]]] ∧
      ¬ ParsedAs [.environment paddedName
          [.math false [.token (tokenOf (.character (.char 'x') .letter))]]]
        (ofTokens paddedVerbatim (Token.rawText paddedVerbatim) 0 .standard) := by
  have content : contentOf paddedVerbatim = paddedVerbatim := by decide
  have formula : Written .standard (fun name => CommandTable.standard.isFree name = true)
      (.inside true) 62 [tokenOf (.character (.char 'x') .letter)]
      [.token (tokenOf (.character (.char 'x') .letter))] := .token rfl .nil
  constructor
  · rw [content]
    exact .environment (by decide) named_paddedName (by decide)
      (.inline rfl (.last formula rfl .nil)) (by decide) named_paddedName .nil
  · intro parsed
    have lengths : (ofTokens paddedVerbatim (Token.rawText paddedVerbatim) 0
        .standard).root.children.map (fun node => node.children.length) = [5] := by decide +kernel
    have fit := parsed.shaped
    generalize (ofTokens paddedVerbatim (Token.rawText paddedVerbatim) 0
      .standard).root.children = children at lengths fit
    -- One node in the body is derived, and three leaves are built.
    cases fit with
    | cons first later =>
      cases later
      cases first with
      | environment _ _ _ _ _ within =>
        have length := within.length_eq
        simp [Node.children] at lengths length
        omega

end Document

end TexSource
