import Mathlib.Data.List.Basic
import TexSource.Proofs.Expansion.Runs

/-!
# What scans hand on

An expansion makes no tokens of its own but the braces around directives. It marks tokens
as expanded, gives them tickets, and builds a tree from them, which splits doubled math
shifts. A property that survives all of this is `Hereditary`, and one that survives scans is
`Inherited`. If it holds of what a branch has to read, it holds of everything that a scan finds
there: of arguments, of the macros that are defined, and of directives (`Scan.Hands`).
-/

namespace TexSource

namespace Expansion

/-- A property of tokens that is kept by what a scan does to them, and that the braces of no width
around a directive have if the tokens between them do. -/
structure Inherited (property : Token → Prop) : Prop where
  markExpanded {token : Token} (holds : property token) : property token.markExpanded
  opener {first : Token} (holds : property first) :
    property { kind := .beginGroup (.char '\x7b'), raw := []
               span := .emptyAt first.span.start first.span.fileId, expanded := true }
  closer {last : Token} (holds : property last) :
    property { kind := .endGroup (.char '\x7d'), raw := []
               span := .emptyAt last.span.stop last.span.fileId, expanded := true }

/-- A property of tokens that survives an expansion: it is kept by whatever an expansion does to
a token. -/
structure Hereditary (property : Token → Prop) : Prop extends Inherited property where
  withTicket {token : Token} (holds : property token) (ticket : Option Nat) :
    property { token with ticket }
  halves {token : Token} (doubled : token.kind = .mathShift true) (holds : property token) :
    property (Parser.splitShift token).1 ∧ property (Parser.splitShift token).2

variable {property : Token → Prop}

namespace Stream

/-- What is read and what is left are what there was. -/
theorem tokens_readUntil {Memory : Type} (test : Memory → Token → Memory × Bool)
    (memory : Memory) (stream : Stream) :
    stream.tokens = (stream.readUntil test memory).before ++
      (stream.readUntil test memory).stop.toList ++
      (stream.readUntil test memory).stream.tokens := by
  obtain ⟨items, calls⟩ := stream
  unfold readUntil
  fun_induction readItems test memory items calls with
  | case1 => rfl
  | case2 memory rest calls name ih => exact ih
  | case3 => rfl
  | case4 =>
    rename_i ih
    exact congrArg _ ih

/-- Tokens that are pushed back are read next. -/
theorem tokens_push (stream : Stream) (tokens : List Token) :
    (stream.push tokens).tokens = tokens ++ stream.tokens := by
  simp [Stream.push, Stream.tokens, List.filterMap_append, List.filterMap_map]

/-- A replacement is read next, its end mark being no token. -/
theorem tokens_pushCall (stream : Stream) (name : Text) (replacement : List Token) :
    (stream.pushCall name replacement).tokens = replacement ++ stream.tokens := by
  simp [Stream.pushCall, Stream.tokens, List.filterMap_append, List.filterMap_map]

theorem tokens_ofTokens (tokens : List Token) : (ofTokens tokens).tokens = tokens := by
  simp [ofTokens, Stream.tokens, List.filterMap_map]

end Stream

end Expansion

/-- The tokens that a macro can write have a property. -/
structure Macro.Carries (property : Token → Prop) (definition : Macro) : Prop where
  replacement : ∀ token ∈ definition.replacement, property token
  default : ∀ tokens, .optional tokens ∈ definition.parameters → ∀ token ∈ tokens, property token

/-- The macros of a scope have a property, those that are hidden included. -/
def Scope.Every (property : Macro → Prop) (scope : Scope) : Prop :=
  ∀ layer ∈ scope.layers, ∀ binding ∈ layer, property binding.2

namespace Scope.Every

variable {property : Macro → Prop} {scope : Scope}

theorem empty (property : Macro → Prop) : Scope.empty.Every property := by
  intro layer member binding bound
  rw [List.mem_singleton.mp member] at bound
  cases bound

/-- A macro that is found has what every macro of the scope has. -/
theorem lookup (every : scope.Every property) {name : Text} {definition : Macro}
    (found : scope.lookup name = some definition) : property definition := by
  obtain ⟨layer, member, bound⟩ := List.exists_of_findSome?_eq_some found
  obtain ⟨binding, inLayer, rfl⟩ := Option.map_eq_some_iff.mp bound
  exact every layer member binding (List.mem_of_find?_eq_some inLayer)

theorem push (every : scope.Every property) : Scope.Every property scope.push := by
  intro layer member
  rcases List.mem_cons.mp member with rfl | member
  · exact nofun
  · exact every layer member

theorem popTo (every : scope.Every property) (depth : Nat) :
    Scope.Every property (scope.popTo depth) := by
  intro layer member
  apply every layer
  rcases List.mem_append.mp member with inner | bottom
  · exact List.mem_append_left _ (List.mem_of_mem_drop inner)
  · exact List.mem_append_right _ bottom

theorem pop (every : scope.Every property) : Scope.Every property scope.pop := by
  intro layer member
  apply every layer
  rcases List.mem_append.mp member with inner | bottom
  · exact List.mem_append_left _ (List.mem_of_mem_tail inner)
  · exact List.mem_append_right _ bottom

/-- What is bound after a binding is entered is that binding or was bound before. -/
theorem insert {layer : Bindings Text Macro} {name : Text} {definition : Macro}
    (holds : ∀ binding ∈ layer, property binding.2) (defined : property definition) :
    ∀ binding ∈ layer.insert name definition, property binding.2 := by
  intro binding member
  rcases List.mem_cons.mp member with rfl | member
  · exact defined
  · exact holds binding (List.mem_of_mem_filter member)

/-- A definition with the property keeps it for the scope. -/
theorem define (every : scope.Every property) {definition : Macro}
    (defined : property definition) : (scope.define definition).Every property := by
  have inBottom : ∀ binding ∈ scope.bottom, property binding.2 :=
    every _ (List.mem_append_right _ List.mem_cons_self)
  have inLayer : ∀ layer ∈ scope.inner, ∀ binding ∈ layer, property binding.2 :=
    fun layer member => every layer (List.mem_append_left _ member)
  unfold Scope.define
  split
  · intro layer member
    rcases List.mem_append.mp member with inner | bottom
    · obtain ⟨before, earlier, rfl⟩ := List.mem_map.mp inner
      intro binding bound
      exact inLayer before earlier binding (List.mem_of_mem_filter bound)
    · rw [List.mem_singleton.mp bottom]
      exact insert inBottom defined
  · unfold Layered.assignLocally
    split
    · rename_i nothing
      intro layer member
      simp only [Layered.layers, nothing, List.nil_append, List.mem_singleton] at member
      rw [member]
      exact insert inBottom defined
    · rename_i innermost outer layers
      intro layer member
      rw [layers] at inLayer
      rcases List.mem_append.mp member with inner | bottom
      · rcases List.mem_cons.mp inner with rfl | inner
        · exact insert (inLayer innermost List.mem_cons_self) defined
        · exact inLayer layer (List.mem_cons_of_mem _ inner)
      · rw [List.mem_singleton.mp bottom]
        exact inBottom

end Scope.Every

/-- The tokens that the macros of a scope can write have a property. -/
def Scope.Carries (property : Token → Prop) (scope : Scope) : Prop :=
  ∀ layer ∈ scope.layers, ∀ binding ∈ layer, binding.2.Carries property

namespace Scope.Carries

variable {property : Token → Prop} {scope : Scope}

theorem empty (property : Token → Prop) : Scope.empty.Carries property :=
  Every.empty (Macro.Carries property)

/-- What is carried by the scope is carried by a macro that is found. -/
theorem lookup (carries : scope.Carries property) {name : Text} {definition : Macro}
    (found : scope.lookup name = some definition) : definition.Carries property :=
  Every.lookup carries found

theorem push (carries : scope.Carries property) : Scope.Carries property scope.push :=
  Every.push carries

theorem popTo (carries : scope.Carries property) (depth : Nat) :
    Scope.Carries property (scope.popTo depth) :=
  Every.popTo carries depth

theorem pop (carries : scope.Carries property) : Scope.Carries property scope.pop :=
  Every.pop carries

/-- A definition whose tokens have the property keeps it for the scope. -/
theorem define (carries : scope.Carries property) {definition : Macro}
    (defined : definition.Carries property) : (scope.define definition).Carries property :=
  Every.define carries defined

end Scope.Carries

namespace Macro

variable {property : Token → Prop}

/-- The tokens that uses of a macro write have a property: those of its replacement, marked as
they are then, and those of its defaults. -/
structure Yields (property : Token → Prop) (definition : Macro) : Prop where
  replacement : ∀ token ∈ definition.replacement, property token.markExpanded
  default : ∀ tokens, .optional tokens ∈ definition.parameters → ∀ token ∈ tokens, property token

/-- A macro whose tokens have a property writes tokens that have it. -/
theorem Carries.yields (inherited : Expansion.Inherited property) {definition : Macro}
    (carries : definition.Carries property) : definition.Yields property :=
  ⟨fun token member => inherited.markExpanded (carries.replacement token member),
    carries.default⟩

/-- A property of macros that those have whose tokens have a property, and that does not depend
on the name. -/
structure Follows (property : Token → Prop) (macros : Macro → Prop) : Prop where
  carries {definition : Macro} (holds : definition.Carries property) : macros definition
  renamed {definition : Macro} (holds : macros definition) (name : Text) (isGlobal : Bool) :
    macros { definition with name, isGlobal }

/-- Copies of a macro carry what its tokens carry. -/
theorem follows_carries : Follows property (Carries property) where
  carries holds := holds
  renamed holds _ _ := ⟨holds.replacement, holds.default⟩

/-- Copies of a macro yield what its tokens carry. -/
theorem follows_yields (inherited : Expansion.Inherited property) :
    Follows property (Yields property) where
  carries holds := holds.yields inherited
  renamed holds _ _ := ⟨holds.replacement, holds.default⟩

/-- What replaces a use of a macro comes from the macro and from the arguments. -/
theorem forall_mem_substitute {arguments : List (List Token)}
    (given : ∀ tokens ∈ arguments, ∀ token ∈ tokens, property token) {replacement : List Token}
    (holds : ∀ token ∈ replacement, property token.markExpanded) :
    ∀ token ∈ substitute arguments replacement, property token := by
  fun_induction substitute arguments replacement with
  | case1 => exact List.forall_mem_nil _
  | case2 token =>
    intro written member
    rw [List.mem_singleton.mp member]
    exact holds token List.mem_cons_self
  | case3 token next rest parameter doubled ih =>
    rw [List.forall_mem_cons, List.forall_mem_cons] at holds
    rw [List.forall_mem_cons]
    exact ⟨holds.2.1, ih holds.2.2⟩
  | case4 token next rest parameter single argument found ih =>
    rw [List.forall_mem_cons, List.forall_mem_cons] at holds
    intro written member
    rcases List.mem_append.mp member with inside | behind
    · obtain ⟨number, _, found⟩ := Option.bind_eq_some_iff.mp found
      exact given argument (List.mem_of_getElem? found) written inside
    · exact ih holds.2.2 written behind
  | case5 token next rest parameter single missing ih =>
    rw [List.forall_mem_cons] at holds ⊢
    exact ⟨holds.1, ih holds.2⟩
  | case6 token next rest noParameter ih =>
    rw [List.forall_mem_cons] at holds ⊢
    exact ⟨holds.1, ih holds.2⟩

/-- Stripping braces adds no token. -/
theorem mem_of_mem_stripBraces {tokens : List Token} {token : Token}
    (member : token ∈ stripBraces tokens) : token ∈ tokens := by
  unfold stripBraces at member
  split at member
  · dsimp only at member
    split at member
    · exact List.mem_cons_of_mem _ (List.dropLast_subset _ member)
    · exact member
  · exact member

end Macro

namespace Expansion

variable {property : Token → Prop}

/-- The tokens that a scan has still to read and those it has consumed have a property. -/
structure Scanner.Carries (property : Token → Prop) (scanner : Scanner) : Prop where
  stream : ∀ token ∈ scanner.stream.tokens, property token
  consumed : ∀ token ∈ scanner.consumed, property token

namespace Scan

variable {First Second : Type}

/-- A scan over tokens with a property leaves such tokens only, and grants something of its
result. -/
structure Hands {Result : Type} (property : Token → Prop) (scan : Scan Result)
    (granted : Result → Prop) : Prop where
  hand : ∀ scanner, scanner.Carries property →
    granted (scan scanner).1 ∧ (scan scanner).2.Carries property

namespace Hands

theorem pure {granted : First → Prop} {result : First} (holds : granted result) :
    Hands property (Pure.pure result) granted :=
  ⟨fun _ carries => ⟨holds, carries⟩⟩

theorem imp {scan : Scan First} {granted other : First → Prop} (hands : Hands property scan granted)
    (implies : ∀ result, granted result → other result) : Hands property scan other :=
  ⟨fun scanner carries => (hands.hand scanner carries).imp_left (implies _)⟩

/-- What one scan hands on is what the next may rely on. -/
theorem bind {first : Scan First} {second : First → Scan Second} {middle : First → Prop}
    {granted : Second → Prop} (hfirst : Hands property first middle)
    (hsecond : ∀ result, middle result → Hands property (second result) granted) :
    Hands property (first >>= second) granted := by
  constructor
  intro scanner carries
  obtain ⟨holds, carries⟩ := hfirst.hand scanner carries
  exact (hsecond _ holds).hand _ carries

/-- Nothing is granted of no result. -/
theorem none {granted : First → Prop} :
    Hands property (Pure.pure none) fun result => ∀ found ∈ result, granted found :=
  .pure fun _ member => absurd member (Option.not_mem_none _)

theorem get : Hands property (MonadState.get : Scan Scanner) (Scanner.Carries property) :=
  ⟨fun _ carries => ⟨carries, carries⟩⟩

/-- What a scan reads has the property. -/
theorem readUntil {Memory : Type} (test : Memory → Token → Memory × Bool) (memory : Memory) :
    Hands property (Scan.readUntil test memory) fun reading =>
      (∀ token ∈ reading.before, property token) ∧ ∀ token ∈ reading.stop, property token := by
  constructor
  intro scanner carries
  have all := carries.stream
  rw [Stream.tokens_readUntil test memory scanner.stream] at all
  have before : ∀ token ∈ (scanner.stream.readUntil test memory).before, property token :=
    fun token member => all token (List.mem_append_left _ (List.mem_append_left _ member))
  have stop : ∀ token ∈ (scanner.stream.readUntil test memory).stop, property token :=
    fun token member => all token
      (List.mem_append_left _ (List.mem_append_right _ (Option.mem_toList.mpr member)))
  refine ⟨⟨before, stop⟩, fun token member => all token (List.mem_append_right _ member), ?_⟩
  intro token member
  rcases List.mem_append.mp member with earlier | last
  · rcases List.mem_append.mp earlier with earlier | read
    · exact carries.consumed token earlier
    · exact before token read
  · exact stop token (Option.mem_toList.mp last)

theorem unread : Hands property Scan.unread fun _ => True := by
  constructor
  intro scanner carries
  refine ⟨trivial, ?_⟩
  unfold Scan.unread
  cases last : scanner.consumed.getLast? with
  | none => exact carries
  | some token =>
    refine ⟨?_, fun other member => carries.consumed other (List.dropLast_subset _ member)⟩
    change ∀ other ∈ (scanner.stream.push [token]).tokens, property other
    rw [Stream.tokens_push, List.singleton_append, List.forall_mem_cons]
    exact ⟨carries.consumed token (List.mem_of_getLast? last), carries.stream⟩

theorem report (problem : Problem) (span : Span) :
    Hands property (Scan.report problem span) fun _ => True :=
  ⟨fun _ carries => ⟨trivial, carries.stream, carries.consumed⟩⟩

end Hands

/-- The next token is one of the stream. -/
theorem hands_next : Hands property next fun token => ∀ found ∈ token, property found :=
  .bind (.readUntil ..) fun _ read => .pure read.2

theorem hands_nextSignificant (spacesOnly : Bool) :
    Hands property (nextSignificant spacesOnly) fun token => ∀ found ∈ token, property found :=
  .bind (.readUntil ..) fun _ read => .pure read.2

/-- The tokens of a group are tokens of the stream. -/
theorem hands_closedGroup :
    Hands property closedGroup fun body => ∀ tokens ∈ body, ∀ token ∈ tokens, property token := by
  apply Hands.bind (.readUntil ..)
  intro reading read
  apply Hands.pure
  intro tokens found
  obtain ⟨_, _, rfl⟩ := Option.map_eq_some_iff.mp found
  exact read.1

/-- The tokens within brackets are tokens of the stream. -/
theorem hands_bracket :
    Hands property bracket fun body => ∀ tokens ∈ body, ∀ token ∈ tokens, property token := by
  apply Hands.bind (.readUntil ..)
  intro reading read
  apply Hands.pure
  intro tokens found
  obtain ⟨_, _, rfl⟩ := Option.map_eq_some_iff.mp found
  exact read.1

theorem hands_environmentName : Hands property environmentName fun _ => True := by
  apply Hands.bind (hands_nextSignificant _)
  intro token read
  cases token with
  | none => exact .pure trivial
  | some token =>
    dsimp only
    split
    · exact .bind hands_closedGroup fun _ _ => .pure trivial
    · exact .bind .unread fun _ _ => .pure trivial

/-- A definition carries what the tokens of its replacement have. -/
theorem carries_ofParameterText (name : Text) (parameterText : List Token)
    {replacement : List Token} (isGlobal : Bool)
    (holds : ∀ token ∈ replacement, property token) :
    (Macro.ofParameterText name parameterText replacement isGlobal).Carries property := by
  refine ⟨holds, ?_⟩
  intro tokens member
  obtain ⟨stop, _, same⟩ := List.mem_map.mp member
  unfold Macro.parameterBefore at same
  split at same <;> cases same

/-- A definition that is read carries what the stream carries. -/
theorem hands_definition (isGlobal : Bool) :
    Hands property (definition isGlobal) fun definition =>
      ∀ found ∈ definition, found.Carries property := by
  apply Hands.bind (hands_nextSignificant _)
  intro name read
  cases name with
  | none => exact .none
  | some name =>
    dsimp only
    split
    · apply Hands.bind (.readUntil ..)
      intro parameterText _
      split
      · apply Hands.bind (.readUntil ..)
        intro body read
        have carries : ∀ found ∈ some (Macro.ofParameterText name.macroName parameterText.before
            body.before isGlobal), found.Carries property := by
          intro found same
          cases same
          exact carries_ofParameterText _ _ _ read.1
        have nothing : Hands property (Pure.pure PUnit.unit) fun _ => True := .pure trivial
        split
        · exact .bind (.report ..) fun _ _ => .pure carries
        · exact .bind nothing fun _ _ => .pure carries
      · exact .none
    · exact .none

theorem hands_letSource :
    Hands property letSource fun token => ∀ found ∈ token, property found := by
  apply Hands.bind (hands_nextSignificant _)
  intro first read
  cases first with
  | none => exact .none
  | some first =>
    dsimp only
    split
    · apply Hands.bind hands_next
      intro second read
      cases second with
      | none => exact .none
      | some second =>
        dsimp only
        split
        · exact hands_next
        · exact .pure read
    · exact .pure read

/-- The meaning of a source is a copied macro or the token itself. -/
theorem macros_meaningOf (inherited : Inherited property) {macros : Macro → Prop}
    (follows : Macro.Follows property macros) {scope : Scope} (every : scope.Every macros)
    (name : Text) {source : Token} (holds : property source) (isGlobal : Bool) :
    macros (meaningOf scope name source isGlobal) := by
  unfold meaningOf
  dsimp only
  split
  · rename_i existing found
    split at found
    · exact follows.renamed (every.lookup found) name isGlobal
    · cases found
  · refine follows.carries ⟨fun token member => ?_, fun _ member => absurd member List.not_mem_nil⟩
    rw [List.mem_singleton.mp member]
    exact inherited.markExpanded holds

/-- A `\let` binds a copy or a token of the stream. -/
theorem hands_letBinding (inherited : Inherited property) {macros : Macro → Prop}
    (follows : Macro.Follows property macros) {scope : Scope} (every : scope.Every macros)
    (isGlobal : Bool) :
    Hands property (letBinding scope isGlobal) fun definition =>
      ∀ found ∈ definition, macros found := by
  apply Hands.bind (hands_nextSignificant _)
  intro target _
  cases target with
  | none => exact .none
  | some target =>
    dsimp only
    split
    · apply Hands.bind hands_letSource
      intro source read
      apply Hands.pure
      intro found same
      obtain ⟨token, given, rfl⟩ := Option.map_eq_some_iff.mp same
      exact macros_meaningOf inherited follows every _ (read token given) _
    · exact .none

theorem hands_nextPastStar :
    Hands property nextPastStar fun token => ∀ found ∈ token, property found := by
  apply Hands.bind (hands_nextSignificant _)
  intro first read
  split
  · exact hands_nextSignificant _
  · exact .pure read

theorem hands_newCommandName : Hands property newCommandName fun _ => True := by
  apply Hands.bind hands_nextPastStar
  intro name _
  cases name with
  | none => exact .pure trivial
  | some token =>
    dsimp only
    split
    · exact .bind hands_closedGroup fun _ _ => .pure trivial
    · exact .pure trivial

/-- A default is made of tokens of the stream. -/
theorem hands_argumentList :
    Hands property argumentList fun outcome => ∀ list, outcome = .ok (some list) →
      (∀ tokens ∈ list.default, ∀ token ∈ tokens, property token) ∧
        ∀ token ∈ list.next, property token := by
  apply Hands.bind (hands_nextSignificant _)
  intro first readFirst
  split
  · apply Hands.bind hands_bracket
    intro digits _
    dsimp only
    split
    · split
      · exact .pure fun _ same => nomatch same
      · apply Hands.bind (hands_nextSignificant _)
        intro second readSecond
        split
        · apply Hands.bind hands_bracket
          intro default readDefault
          split
          · exact .pure fun _ same => nomatch same
          · rename_i tokens
            apply Hands.bind (hands_nextSignificant _)
            intro next readNext
            apply Hands.pure
            intro list same
            cases same
            exact ⟨readDefault, readNext⟩
        · apply Hands.pure
          intro list same
          cases same
          exact ⟨fun _ member => absurd member (Option.not_mem_none _), readSecond⟩
    · exact .pure fun _ same => nomatch same
  · apply Hands.pure
    intro list same
    cases same
    exact ⟨fun _ member => absurd member (Option.not_mem_none _), readFirst⟩

theorem hands_newCommandBody {first : Option Token} (read : ∀ token ∈ first, property token) :
    Hands property (newCommandBody first) fun body =>
      ∀ tokens ∈ body, ∀ token ∈ tokens, property token := by
  unfold newCommandBody
  cases first with
  | none => exact .none
  | some first =>
    dsimp only
    split
    · exact hands_closedGroup
    · apply Hands.pure
      intro tokens same
      cases same
      intro token member
      rw [List.mem_singleton.mp member]
      exact read first rfl

/-- A `\newcommand` carries what the stream carries. -/
theorem hands_newCommand :
    Hands property newCommand fun outcome => ∀ definition, outcome = .ok (some definition) →
      definition.Carries property := by
  apply Hands.bind hands_newCommandName
  intro name _
  cases name with
  | none => exact .pure fun _ same => nomatch same
  | some name =>
    apply Hands.bind hands_argumentList
    intro list readList
    split
    · exact .pure fun _ same => nomatch same
    · exact .pure fun _ same => nomatch same
    · rename_i list
      obtain ⟨readDefault, readNext⟩ := readList list rfl
      apply Hands.bind (hands_newCommandBody readNext)
      intro body readBody
      apply Hands.pure
      intro definition same
      obtain ⟨tokens, given, rfl⟩ := Option.map_eq_some_iff.mp (Except.ok.inj same)
      refine ⟨readBody tokens given, ?_⟩
      intro default member
      cases given : list.default with
      | none =>
        simp [newCommandParameters, given] at member
      | some tokens =>
        simp [newCommandParameters, given] at member
        exact readDefault default (by rw [given, member]; rfl)

/-- Behind marks, what is defined carries what the stream carries. -/
theorem hands_markedBehind (inherited : Inherited property) {macros : Macro → Prop}
    (follows : Macro.Follows property macros) {scope : Scope} (every : scope.Every macros)
    (marks : Reading Bool) :
    Hands property (markedBehind scope marks) fun outcome =>
      ∀ definition, outcome = .defines definition → macros definition := by
  unfold markedBehind
  dsimp only
  have others : ∀ found, Marked.notOurs = .defines found → macros found := by
    intro found same
    cases same
  split
  · exact .pure others
  · split
    · split
      · exact .bind .unread fun _ _ => .pure others
      · split
        · refine .bind (hands_definition _) fun definition holds => .pure fun found same => ?_
          cases definition with
          | none => cases same
          | some definition =>
            cases same
            exact follows.carries (holds _ rfl)
        · split
          · refine .bind (hands_letBinding inherited follows every _) fun definition holds =>
              .pure fun found same => ?_
            cases definition with
            | none => cases same
            | some definition =>
              cases same
              exact holds _ rfl
          · exact .pure others
    · exact .bind .unread fun _ _ => .pure others

/-- What is defined with its marks carries what the stream carries. -/
theorem hands_marked (inherited : Inherited property) {macros : Macro → Prop}
    (follows : Macro.Follows property macros) {scope : Scope} (every : scope.Every macros)
    (isGlobal : Bool) :
    Hands property (marked scope isGlobal) fun outcome =>
      ∀ definition, outcome = .defines definition → macros definition :=
  .bind (.readUntil ..) fun marks _ => hands_markedBehind inherited follows every marks

theorem hands_literal (expected : List Token) :
    Hands property (literal expected) fun _ => True := by
  induction expected with
  | nil => exact .pure trivial
  | cons token rest ih =>
    apply Hands.bind hands_next
    intro actual _
    cases actual with
    | none => exact .pure trivial
    | some actual =>
      dsimp only
      split
      · exact ih
      · exact .pure trivial

/-- A delimited argument is made of tokens of the stream. -/
theorem hands_delimited (stop : List Token) (name : Text) (use : Token) :
    Hands property (delimited stop name use) fun argument =>
      ∀ tokens ∈ argument, ∀ token ∈ tokens, property token := by
  apply Hands.bind (.readUntil ..)
  intro search read
  have reported : Hands property (reportExtra name search.memory.extra) fun _ => True := by
    unfold reportExtra
    split
    · exact .report ..
    · exact .pure trivial
  apply Hands.bind reported
  intro _ _
  unfold delimitedArgument
  split
  · exact .bind (.report ..) fun _ _ => .none
  · rename_i last found
    apply Hands.pure
    intro tokens same
    cases same
    intro token member
    have collected := List.mem_of_mem_take (Macro.mem_of_mem_stripBraces member)
    rcases List.mem_append.mp collected with before | last
    · exact read.1 token before
    · rw [List.mem_singleton.mp last]
      exact read.2 _ found

/-- An argument is made of tokens of the stream or of its default. -/
theorem hands_argument (name : Text) (use : Token) {parameter : Parameter}
    (default : ∀ tokens, parameter = .optional tokens → ∀ token ∈ tokens, property token) :
    Hands property (argument name use parameter) fun argument =>
      ∀ tokens ∈ argument, ∀ token ∈ tokens, property token := by
  cases parameter with
  | optional tokens =>
    have given : ∀ others ∈ some tokens, ∀ token ∈ others, property token := by
      intro others same
      cases same
      exact default tokens rfl
    apply Hands.bind (hands_nextSignificant _)
    intro token _
    cases token with
    | none => exact .pure given
    | some token =>
      dsimp only
      split
      · exact hands_bracket
      · exact .bind .unread fun _ _ => .pure given
  | undelimited =>
    apply Hands.bind (hands_nextSignificant _)
    intro token read
    cases token with
    | none => exact .none
    | some token =>
      dsimp only
      split
      · exact .bind .unread fun _ _ => .none
      · split
        · exact hands_closedGroup
        · apply Hands.pure
          intro tokens same
          cases same
          intro other member
          rw [List.mem_singleton.mp member]
          exact read token rfl
  | delimited stop => exact hands_delimited ..

/-- All arguments are made of tokens of the stream or of defaults. -/
theorem hands_arguments (name : Text) (use : Token) {found : List (List Token)}
    (earlier : ∀ tokens ∈ found, ∀ token ∈ tokens, property token) {parameters : List Parameter}
    (default : ∀ tokens, .optional tokens ∈ parameters → ∀ token ∈ tokens, property token) :
    Hands property (arguments name use found parameters) fun outcome =>
      ∀ given, outcome = .ok given → ∀ tokens ∈ given, ∀ token ∈ tokens, property token := by
  induction parameters generalizing found with
  | nil =>
    apply Hands.pure
    intro given same
    cases same
    intro tokens member
    exact earlier tokens (List.mem_reverse.mp member)
  | cons parameter rest ih =>
    apply Hands.bind (hands_argument name use fun tokens same =>
      default tokens (by rw [same]; exact List.mem_cons_self))
    intro argument read
    cases argument with
    | none => exact .pure fun _ same => nomatch same
    | some tokens =>
      apply ih
      · intro others member
        rcases List.mem_cons.mp member with rfl | member
        · exact read _ rfl
        · exact earlier others member
      · exact fun tokens member => default tokens (List.mem_cons_of_mem _ member)

/-- The arguments of a use are made of tokens of the stream or of the macro. -/
theorem hands_invocation {definition : Macro} (yields : definition.Yields property)
    (use : Token) :
    Hands property (invocation definition use) fun outcome =>
      ∀ given, outcome = .ok given → ∀ tokens ∈ given, ∀ token ∈ tokens, property token := by
  apply Hands.bind (hands_literal _)
  intro agrees _
  split
  · have none : ∀ tokens ∈ ([] : List (List Token)), ∀ token ∈ tokens, property token :=
      fun _ member => nomatch member
    apply Hands.bind (hands_arguments _ _ none yields.default)
    intro outcome read
    split
    · rename_i found
      apply Hands.pure
      intro given same
      cases same
      exact read found rfl
    · exact .pure fun _ same => nomatch same
  · exact .pure fun _ same => nomatch same

/-- A directive is enclosed by tokens that inherit its property. -/
theorem forall_mem_enclosed (inherited : Inherited property) {first : Token}
    {rest : List Token} (holdsFirst : property first) (holds : ∀ token ∈ rest, property token) :
    ∀ token ∈ enclosed first rest, property token := by
  have last : property (rest.getLast?.getD first) := by
    cases found : rest.getLast? with
    | none => exact holdsFirst
    | some last => exact holds last (List.mem_of_getLast? found)
  intro token member
  unfold enclosed at member
  rcases List.mem_append.mp member with before | closer
  · rcases List.mem_cons.mp before with rfl | inside
    · exact inherited.opener holdsFirst
    · rcases List.mem_cons.mp inside with rfl | inside
      · exact holdsFirst
      · exact holds token inside
  · rw [List.mem_singleton.mp closer]
    exact inherited.closer last

/-- The tokens of a directive are tokens of the stream. -/
theorem hands_inclusion (inherited : Inherited property) :
    Hands property inclusion fun directive =>
      ∀ found ∈ directive, ∀ token ∈ found.tokens, property token := by
  apply Hands.bind (hands_nextSignificant _)
  intro token readFirst
  cases token with
  | none => exact .none
  | some token =>
    dsimp only
    split
    · apply Hands.bind hands_closedGroup
      intro body _
      cases body with
      | none => exact .none
      | some body =>
        apply Hands.bind .get
        intro scanner carries
        apply Hands.pure
        intro found same
        split at same
        · cases same
        · cases same
          exact carries.consumed
    · split
      · apply Hands.bind .get
        intro scanner carries
        apply Hands.bind (.readUntil ..)
        intro more read
        have tokens : ∀ other ∈ scanner.consumed.dropLast ++ enclosed token more.before,
            property other := by
          intro other member
          rcases List.mem_append.mp member with blank | name
          · exact carries.consumed other (List.dropLast_subset _ blank)
          · exact forall_mem_enclosed inherited (readFirst token rfl) read.1 other name
        have granted : ∀ found ∈ some (Directive.mk ((token :: more.before).flatMap Token.value)
            (scanner.consumed.dropLast ++ enclosed token more.before)),
            ∀ other ∈ found.tokens, property other := by
          intro found same
          cases same
          exact tokens
        have nothing : Hands property (Pure.pure PUnit.unit) fun _ => True := .pure trivial
        split
        · exact .bind .unread fun _ _ => .pure granted
        · exact .bind nothing fun _ _ => .pure granted
      · exact .none

end Scan

end Expansion

end TexSource
