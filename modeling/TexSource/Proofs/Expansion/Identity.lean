import TexSource.Expansion
import TexSource.Proofs.Document.Rereading

/-!
# Expansion where there is nothing to expand

In an empty scope, tokens that neither define nor include anything pass through a branch
as they are: what is written and what is still to be read are the tokens of the document,
whatever was read ahead and put back (`Branch.Passes`). The document that is built from
them is then the one that was expanded, since reading its tokens again gives the same tree.
-/

namespace TexSource

namespace Expansion

/-- Whether a token starts neither a definition nor an inclusion. -/
def isInert (token : Token) : Bool :=
  match token.kind with
  | .controlWord word =>
    (Scan.definer? word).isNone && word ≠ "let" && !Branch.isNewCommandWord word &&
      !Branch.isInclusionWord word
  | _ => true

/-- A stream holds the given tokens, and no mark of the end of a call. -/
def Stream.Holds (stream : Stream) (tokens : List Token) : Prop :=
  stream.items = tokens.map Item.token

/-- What is put back is held before the rest. -/
theorem Stream.holds_push {stream : Stream} {tokens : List Token} (holds : stream.Holds tokens)
    (others : List Token) : (stream.push others).Holds (others ++ tokens) := by
  have items : stream.items = tokens.map Item.token := holds
  rw [Stream.Holds, Stream.push, items, List.map_append]

/-- What is read and what is left are what there was. -/
theorem Stream.holds_readUntil {Memory : Type} (test : Memory → Token → Memory × Bool)
    (memory : Memory) {stream : Stream} {tokens : List Token} (holds : stream.Holds tokens) :
    ∃ left, (stream.readUntil test memory).stream.Holds left ∧
      (stream.readUntil test memory).before ++ (stream.readUntil test memory).stop.toList ++ left =
        tokens := by
  obtain ⟨items, calls⟩ := stream
  cases holds
  change ∃ left, (readItems test memory (tokens.map Item.token) calls).stream.Holds left ∧
    (readItems test memory (tokens.map Item.token) calls).before ++
      (readItems test memory (tokens.map Item.token) calls).stop.toList ++ left = tokens
  induction tokens generalizing memory with
  | nil => exact ⟨[], rfl, rfl⟩
  | cons token rest ih =>
    rw [List.map_cons, readItems]
    cases stops : (test memory token).2 with
    | true => exact ⟨rest, by simp [stops, Holds], by simp [stops]⟩
    | false =>
      obtain ⟨left, holds, same⟩ := ih (test memory token).1
      exact ⟨left, by simpa [stops] using holds, by simpa [stops] using same⟩

namespace Scan

variable {First Second : Type}

/-- A scan neither loses nor makes tokens, and reports nothing. -/
structure Conserves {Result : Type} (scan : Scan Result) : Prop where
  conserve : ∀ scanner tokens, scanner.stream.Holds tokens →
    ∃ left, (scan scanner).2.stream.Holds left ∧
      (scan scanner).2.consumed ++ left = scanner.consumed ++ tokens ∧
      (scan scanner).2.reports = scanner.reports

namespace Conserves

theorem pure (result : First) : Conserves (Pure.pure result) :=
  ⟨fun _ tokens holds => ⟨tokens, holds, rfl, rfl⟩⟩

/-- Scans that conserve their tokens do so one after another. -/
theorem bind {first : Scan First} {second : First → Scan Second} (hfirst : Conserves first)
    (hsecond : ∀ result, Conserves (second result)) : Conserves (first >>= second) := by
  constructor
  intro scanner tokens holds
  obtain ⟨middle, holdsMiddle, sameMiddle, quietMiddle⟩ := hfirst.conserve scanner tokens holds
  obtain ⟨left, holdsLeft, same, quiet⟩ :=
    (hsecond (first scanner).1).conserve (first scanner).2 middle holdsMiddle
  exact ⟨left, holdsLeft, same.trans sameMiddle, quiet.trans quietMiddle⟩

/-- What is read is consumed and not lost. -/
theorem readUntil {Memory : Type} (test : Memory → Token → Memory × Bool) (memory : Memory) :
    Conserves (Scan.readUntil test memory) := by
  constructor
  intro scanner tokens holds
  obtain ⟨left, holdsLeft, same⟩ := Stream.holds_readUntil test memory holds
  refine ⟨left, holdsLeft, ?_, rfl⟩
  rw [← same]
  simp [Scan.readUntil]

theorem unread : Conserves Scan.unread := by
  constructor
  intro scanner tokens holds
  unfold Scan.unread
  cases last : scanner.consumed.getLast? with
  | none => exact ⟨tokens, holds, rfl, rfl⟩
  | some token =>
    refine ⟨token :: tokens, Stream.holds_push holds [token], ?_, rfl⟩
    obtain ⟨before, same⟩ := List.getLast?_eq_some_iff.mp last
    simp [same]

end Conserves

theorem conserves_nextSignificant (spacesOnly : Bool) : Conserves (nextSignificant spacesOnly) :=
  .bind (.readUntil ..) fun _ => .pure _

/-- Reading a group conserves its tokens. -/
theorem conserves_closedGroup : Conserves closedGroup :=
  .bind (.readUntil ..) fun _ => .pure _

theorem conserves_environmentName : Conserves environmentName := by
  apply Conserves.bind (conserves_nextSignificant _)
  intro token
  cases token with
  | none => exact .pure _
  | some token =>
    dsimp only
    split
    · exact .bind conserves_closedGroup fun _ => .pure _
    · exact .bind .unread fun _ => .pure _

/-- Inert tokens behind marks belong to no definition. -/
theorem markedBehind_of_inert {scope : Scope} (unbound : ∀ name, scope.lookup name = none)
    {marks : Reading Bool} (inert : ∀ token ∈ marks.stop, isInert token = true) :
    markedBehind scope marks = Pure.pure .notOurs ∨
      markedBehind scope marks = (do unread; return .notOurs) := by
  unfold markedBehind
  cases stop : marks.stop with
  | none => exact .inl rfl
  | some token =>
    have harmless := inert token stop
    dsimp only
    split
    · rename_i word kind
      have free : scope.binds word = false := by simp [Scope.binds, unbound]
      simp only [isInert, kind] at harmless
      simp_all
    · exact .inr rfl

/-- Marks before inert tokens define nothing. -/
theorem marked_of_inert {scope : Scope} (unbound : ∀ name, scope.lookup name = none)
    (isGlobal : Bool) (scanner : Scanner) {tokens : List Token}
    (holds : scanner.stream.Holds tokens) (inert : ∀ token ∈ tokens, isInert token = true) :
    (marked scope isGlobal scanner).1 = .notOurs ∧
      ∃ left, (marked scope isGlobal scanner).2.stream.Holds left ∧
        (marked scope isGlobal scanner).2.consumed ++ left = scanner.consumed ++ tokens ∧
        (marked scope isGlobal scanner).2.reports = scanner.reports := by
  obtain ⟨left, _, same⟩ := Stream.holds_readUntil (markTest scope) isGlobal holds
  have inertStop : ∀ token ∈ (scanner.stream.readUntil (markTest scope) isGlobal).stop,
      isInert token = true := by
    intro token stop
    refine inert token ?_
    rw [← same, stop]
    simp
  have reads := Conserves.readUntil (markTest scope) isGlobal
  rcases markedBehind_of_inert unbound inertStop with nothing | putBack
  · have run : marked scope isGlobal scanner =
        (Scan.readUntil (markTest scope) isGlobal >>= fun _ => Pure.pure .notOurs) scanner := by
      change markedBehind scope _ _ = _
      rw [nothing]
      rfl
    rw [run]
    exact ⟨rfl, (reads.bind fun _ => .pure _).conserve scanner tokens holds⟩
  · have run : marked scope isGlobal scanner =
        (Scan.readUntil (markTest scope) isGlobal >>= fun _ => do
          unread
          return .notOurs) scanner := by
      change markedBehind scope _ _ = _
      rw [putBack]
      rfl
    rw [run]
    exact ⟨rfl, (reads.bind fun _ => .bind .unread fun _ => .pure _).conserve scanner tokens holds⟩

end Scan

namespace Branch

/-- What a branch has written, what it has read without writing it, and what it has still
to read are the given tokens; nothing is bound, and nothing was reported or included. -/
structure Passes (tokens held left : List Token) (branch : Branch) : Prop where
  holds : branch.stream.Holds left
  split : branch.output.toList ++ held ++ left = tokens
  unbound : ∀ name, branch.shared.scope.lookup name = none
  quiet : branch.shared.diagnostics = #[]
  alone : branch.inclusions = #[]

namespace Passes

variable {tokens held left : List Token} {branch : Branch}

/-- What is held may be written. -/
theorem write (passes : Passes tokens held left branch) :
    Passes tokens [] left (branch.write held) :=
  { passes with split := by rw [← passes.split]; simp [Branch.write] }

/-- Giving up writes the first token and puts the rest back. -/
theorem giveUp {first : Token} {consumed : List Token}
    (passes : Passes tokens (first :: consumed) left branch) :
    Passes tokens [] (consumed ++ left) (branch.giveUp first consumed) :=
  { passes with
    holds := Stream.holds_push passes.holds consumed
    split := by rw [← passes.split]; simp [Branch.giveUp, Branch.write] }

/-- A scope without bindings may take the place of another. -/
theorem withScope (passes : Passes tokens held left branch) {change : Scope → Scope}
    (unbound : ∀ name, (change branch.shared.scope).lookup name = none) :
    Passes tokens held left (branch.withScope change) :=
  { passes with unbound := unbound }

theorem withVerbatim (passes : Passes tokens held left branch) (verbatim : Option Text) :
    Passes tokens held left { branch with verbatim } :=
  { passes with }

/-- What a scan consumed is held, when it conserved the tokens. -/
theorem attempt {Result : Type} {scan : Scan Result} (passes : Passes tokens held left branch)
    (conserves : ∃ later, (scan ⟨branch.stream, [], #[]⟩).2.stream.Holds later ∧
      (scan ⟨branch.stream, [], #[]⟩).2.consumed ++ later = left ∧
      (scan ⟨branch.stream, [], #[]⟩).2.reports = #[]) :
    ∃ later, Passes tokens (held ++ (branch.attempt scan).2.1) later (branch.attempt scan).2.2 := by
  obtain ⟨later, holds, same, quiet⟩ := conserves
  refine ⟨later, holds, ?_, passes.unbound, ?_, passes.alone⟩
  · rw [← passes.split, ← same, List.append_assoc, List.append_assoc, List.append_assoc]
    rfl
  · change branch.shared.diagnostics ++ _ = #[]
    rw [passes.quiet, quiet]
    rfl

/-- What an attempt consumed is held. -/
theorem attempt_of_conserves {Result : Type} {scan : Scan Result}
    (passes : Passes tokens held left branch) (conserves : Scan.Conserves scan) :
    ∃ later, Passes tokens (held ++ (branch.attempt scan).2.1) later (branch.attempt scan).2.2 :=
  passes.attempt (conserves.conserve ⟨branch.stream, [], #[]⟩ left passes.holds)

end Passes

variable {tokens left : List Token} {branch : Branch} {token : Token}

/-- A marked definition passes inert tokens through. -/
theorem passes_defineMarked (passes : Passes tokens [token] left branch)
    (inert : ∀ token ∈ tokens, isInert token = true) (isGlobal : Bool) :
    ∃ later, Passes tokens [] later (branch.defineMarked token isGlobal) := by
  have inertLeft : ∀ token ∈ left, isInert token = true := fun other member =>
    inert other (by rw [← passes.split]; exact List.mem_append_right _ member)
  have marked := Scan.marked_of_inert passes.unbound isGlobal ⟨branch.stream, [], #[]⟩
    passes.holds inertLeft
  obtain ⟨later, held⟩ := passes.attempt marked.2
  have outcome : (branch.attempt (Scan.marked branch.shared.scope isGlobal)).1 = .notOurs :=
    marked.1
  unfold defineMarked
  simp only [outcome]
  exact ⟨later, held.write⟩

/-- The begin of an environment is passed through. -/
theorem passes_beginEnvironment (commands : CommandTable)
    (passes : Passes tokens [token] left branch) :
    ∃ later, Passes tokens [] later (branch.beginEnvironment commands token) := by
  obtain ⟨later, held⟩ := passes.attempt_of_conserves Scan.conserves_environmentName
  unfold beginEnvironment
  dsimp only
  split
  · exact ⟨later, held.write.withVerbatim _⟩
  · exact ⟨_, held.giveUp⟩

/-- A token of a verbatim body is passed through. -/
theorem passes_passVerbatim (name : Text) (passes : Passes tokens [token] left branch) :
    ∃ later, Passes tokens [] later (branch.passVerbatim name token) := by
  unfold passVerbatim
  split
  · obtain ⟨later, held⟩ := passes.attempt_of_conserves Scan.conserves_environmentName
    exact ⟨later, held.write.withVerbatim _⟩
  · exact ⟨left, passes.write⟩

/-- An inert control word is passed through. -/
theorem passes_obey {settings : Settings} {site : Site} {nested : Nested} {word : Text}
    (passes : Passes tokens [token] left branch) (kind : token.kind = .controlWord word)
    (inert : ∀ token ∈ tokens, isInert token = true) :
    ∃ after later, branch.obey settings site nested token word = .ok after ∧
      Passes tokens [] later after := by
  have harmless := inert token (by rw [← passes.split]; simp)
  simp only [isInert, kind, Bool.and_eq_true, Bool.not_eq_true', decide_eq_true_eq,
    Option.isNone_iff_eq_none] at harmless
  obtain ⟨⟨⟨noDefiner, noLet⟩, noNewCommand⟩, noInclusion⟩ := harmless
  unfold obey
  by_cases mark : Scan.isDefinitionMark word = true
  · rw [if_pos mark]
    obtain ⟨later, passed⟩ := passes_defineMarked passes inert (word = "global")
    exact ⟨_, later, rfl, passed⟩
  · rw [if_neg mark, noDefiner]
    dsimp only
    rw [if_neg noLet, if_neg (by simp [noNewCommand]), if_neg (by simp [noInclusion])]
    by_cases begins : word = "begin"
    · rw [if_pos begins]
      obtain ⟨later, passed⟩ := passes_beginEnvironment settings.commands passes
      exact ⟨_, later, rfl, passed⟩
    · rw [if_neg begins]
      exact ⟨_, left, rfl, passes.write⟩

/-- Opening a layer binds nothing. -/
theorem lookup_push_eq_none {scope : Scope} (unbound : ∀ name, scope.lookup name = none)
    (name : Text) : scope.push.lookup name = none :=
  unbound name

/-- Forgetting a layer binds nothing. -/
theorem lookup_pop_eq_none {scope : Scope} (unbound : ∀ name, scope.lookup name = none)
    (name : Text) : scope.pop.lookup name = none := by
  have unboundIn := List.findSome?_eq_none_iff.mp (unbound name)
  refine List.findSome?_eq_none_iff.mpr fun layer member => unboundIn layer ?_
  rcases List.mem_append.mp member with inner | bottom
  · exact List.mem_append_left _ (List.mem_of_mem_tail inner)
  · exact List.mem_append_right _ bottom

/-- **One step.** A token that neither defines nor includes anything is written, and
nothing but tokens ahead of it with it. -/
theorem passes_step (settings : Settings) (site : Site) (nested : Nested)
    (passes : Passes tokens [token] left branch)
    (inert : ∀ token ∈ tokens, isInert token = true) :
    ∃ after later, branch.step settings site nested token = .ok after ∧
      Passes tokens [] later after := by
  unfold step
  by_cases aborted : branch.aborted = true
  · rw [if_pos aborted]
    exact ⟨_, left, rfl, passes.write⟩
  · rw [if_neg aborted]
    cases branch.verbatim with
    | some name =>
      obtain ⟨later, passed⟩ := passes_passVerbatim name passes
      exact ⟨_, later, rfl, passed⟩
    | none =>
      have meaningless : branch.meaning? token = none := by
        unfold meaning?
        split
        · exact passes.unbound _
        · rfl
      dsimp only
      rw [meaningless]
      dsimp only
      split
      · exact ⟨_, left, rfl, (passes.withScope (lookup_push_eq_none passes.unbound)).write⟩
      · refine ⟨_, left, rfl, (passes.withScope fun name => ?_).write⟩
        split
        · exact lookup_pop_eq_none passes.unbound name
        · exact passes.unbound name
      · rename_i word kind
        exact passes_obey passes kind inert
      · exact ⟨_, left, rfl, passes.write⟩

/-- Reading holds the next token if there is one. -/
theorem Passes.next (passes : Passes tokens [] left branch) :
    branch.stream.next.1 = left.head? ∧
      Passes tokens left.head?.toList left.tail { branch with stream := branch.stream.next.2 } := by
  obtain ⟨⟨items, calls⟩, steps, aborted, verbatim, output, inclusions, shared⟩ := branch
  have holds : items = left.map Item.token := passes.holds
  subst holds
  cases left with
  | nil => exact ⟨rfl, { passes with holds := rfl }⟩
  | cons token rest =>
    exact ⟨rfl, { passes with holds := rfl, split := by simpa using passes.split }⟩

/-- **A whole run.** Tokens that neither define nor include anything are written as they
are. -/
theorem passes_run (settings : Settings) (site : Site) (nested : Nested) {branch : Branch}
    (passes : Passes tokens [] left branch) (inert : ∀ token ∈ tokens, isInert token = true) :
    ∃ after, branch.run settings site nested = .ok after ∧ Passes tokens [] [] after := by
  fun_induction branch.run settings site nested generalizing left with
  | case1 branch stream found =>
    have next := passes.next
    rw [found] at next
    obtain ⟨none, held⟩ := next
    rw [List.head?_eq_none_iff.mp none.symm] at held
    exact ⟨_, rfl, held⟩
  | case2 branch token stream found abort failed =>
    have next := passes.next
    rw [found] at next
    obtain ⟨some, held⟩ := next
    rw [← some] at held
    obtain ⟨after, later, done, _⟩ := passes_step settings site nested held inert
    cases failed.symm.trans done
  | case3 branch token stream found later done ih =>
    have next := passes.next
    rw [found] at next
    obtain ⟨some, held⟩ := next
    rw [← some] at held
    obtain ⟨after, left, stepped, passed⟩ := passes_step settings site nested held inert
    cases done.symm.trans stepped
    exact ih passed

end Branch

mutual

/-- Without inclusions a node stays as it is. -/
theorem spliceNode_empty : (node : Node) → spliceNode #[] node = pure node
  | .leaf _ _ => rfl
  | .group _ _ _ children _ _ => by simp [spliceNode, spliceNodes_empty children]
  | .math _ _ _ children _ _ => by simp [spliceNode, spliceNodes_empty children]
  | .command invocation => by simp [spliceNode, spliceCommand_empty invocation]
  | .environment _ _ opening body none _ _ => by
    simp [spliceNode, spliceCommand_empty opening, spliceNodes_empty body]
  | .environment _ _ opening body (some ending) _ _ => by
    simp [spliceNode, spliceCommand_empty opening, spliceNodes_empty body,
      spliceCommand_empty ending]
  | .inclusion _ _ _ _ _ _ => rfl

theorem spliceCommand_empty :
    (invocation : Command) → spliceCommand #[] invocation = pure invocation
  | ⟨_, _, _, _, arguments, _⟩ => by simp [spliceCommand, spliceArguments_empty arguments]

/-- Without inclusions nodes stay as they are. -/
theorem spliceNodes_empty : (nodes : List Node) → spliceNodes #[] nodes = pure nodes
  | [] => rfl
  | node :: rest => by simp [spliceNodes, spliceNode_empty node, spliceNodes_empty rest]

theorem spliceArguments_empty : (arguments : List Argument) →
    spliceArguments #[] arguments = pure arguments
  | [] => rfl
  | ⟨_, leading, content⟩ :: rest => by
    simp [spliceArguments, spliceNodes_empty leading, spliceNode_empty content,
      spliceArguments_empty rest]

end

/-- Without inclusions a document stays as it is. -/
theorem splice_empty (document : Document) : splice #[] document = document := by
  rw [splice, spliceNode_empty]
  cases document
  rfl

/-- A document with plain tokens: an end of input without text behind tokens that are no
ends of input and carry no tickets. -/
structure Plain (document : Document) (content : List Token) : Prop where
  tokens : document.tokens =
    content ++ [{ kind := .endOfInput, raw := [], span := document.endOfInput.span }]
  inside : ∀ token ∈ content, token.isEndOfInput = false
  unticketed : ∀ token ∈ content, token.ticket = none

namespace Plain

variable {document : Document} {content : List Token}

/-- At the start nothing is written and all is left. -/
theorem passes_start (plain : Plain document content) {shared : Shared}
    (unbound : ∀ name, shared.scope.lookup name = none) (quiet : shared.diagnostics = #[]) :
    Branch.Passes content [] content (Branch.start document shared) where
  holds := by
    have filtered : (document.tokens.filter fun token => !token.isEndOfInput) = content := by
      rw [plain.tokens, List.filter_append]
      have all : (content.filter fun token => !token.isEndOfInput) = content :=
        List.filter_eq_self.mpr fun token member => by simpa using plain.inside token member
      rw [all]
      simp [Token.isEndOfInput]
    have same : content.map ({ · with ticket := none }) = content := by
      conv_rhs => rw [← List.map_id content]
      apply List.map_congr_left
      intro token member
      obtain ⟨kind, raw, span, expanded, ticket⟩ := token
      cases plain.unticketed _ member
      rfl
    rw [Branch.start, filtered, same]
    rfl
  split := rfl
  unbound := unbound
  quiet := quiet
  alone := rfl

/-- A plain document with inert tokens is expanded to the document of its own tokens. -/
theorem expandWith_eq (plain : Plain document content)
    (inert : ∀ token ∈ content, isInert token = true) (settings : Settings) (nested : Nested)
    (ancestors : List FileId) (shared : Shared)
    (unbound : ∀ name, shared.scope.lookup name = none) (quiet : shared.diagnostics = #[]) :
    ∃ later, later.diagnostics = #[] ∧
      expandWith settings nested document ancestors shared = .ok
        (Document.ofTokens document.tokens document.source document.fileId settings.commands,
          later) := by
  obtain ⟨branch, done, passed⟩ := Branch.passes_run settings
    (siteOf document ancestors shared) nested (plain.passes_start unbound quiet) inert
  have written : branch.output.toList = content := by simpa using passed.split
  have result : branch.result settings.commands document =
      Document.ofTokens document.tokens document.source document.fileId settings.commands := by
    rw [Branch.result, passed.alone, splice_empty, written, ← plain.tokens]
  refine ⟨{ branch.shared with
    scope := branch.shared.scope.popTo shared.scope.depth }, passed.quiet, ?_⟩
  simp only [expandWith, done, ← result]
  rfl

/-- A plain document with inert tokens is expanded to the document of its own tokens,
whatever files are there and whatever the limits are. -/
theorem outcome_expand (plain : Plain document content)
    (inert : ∀ token ∈ content, isInert token = true) (settings : Settings) {scope : Scope}
    (unbound : ∀ name, scope.lookup name = none) (table : FileTable) :
    (expand settings document scope table).outcome = .ok
      (Document.ofTokens document.tokens document.source document.fileId settings.commands,
        []) := by
  obtain ⟨later, quiet, done⟩ := plain.expandWith_eq inert settings
    (expandIncluded settings settings.limits.maxIncludeDepth.toNat) [document.fileId]
    ⟨scope, table, #[], []⟩ unbound rfl
  unfold expand expandNested
  simp only [done, quiet]

end Plain

/-- A parsed document is the document of its lexed tokens, with the reports of the lexer
before its own. -/
theorem document_of_parse {source : Text} {table : Catcode.Table} {commands : CommandTable}
    {fileId : FileId} {document : Document}
    (parsed : Document.parse source table commands fileId = .ok document) :
    ∃ tokens reports diagnostics, lex source table fileId = .ok (tokens, reports) ∧
      document = { Document.ofTokens tokens source fileId commands with diagnostics } := by
  unfold Document.parse at parsed
  cases read : lex source table fileId with
  | error error =>
    rw [read] at parsed
    cases parsed
  | ok result =>
    rw [read] at parsed
    cases parsed
    exact ⟨_, _, _, rfl, rfl⟩

/-- A document of lexed tokens is plain. -/
theorem plain_of_lex {source : Text} {table : Catcode.Table} {fileId : FileId}
    {tokens : List Token} {reports : List Diagnostic}
    (read : lex source table fileId = .ok (tokens, reports)) (commands : CommandTable)
    (diagnostics : List Diagnostic) :
    ∃ content,
      Plain { Document.ofTokens tokens source fileId commands with diagnostics } content := by
  obtain ⟨content, rfl, tiles⟩ := Lexer.tiles_of_lex read
  have inside : ∀ token ∈ content, token.isEndOfInput = false := fun token member =>
    (tiles.covers_of_mem member).elim fun _ covers => covers.content
  have unticketed : ∀ token ∈ content, token.ticket = none := fun token member =>
    (tiles.covers_of_mem member).elim fun _ covers => covers.unticketed
  have ends : (Token.endOfInputAt (source.placeAt source.length) fileId).isEndOfInput = true := rfl
  have kept := Document.contentOf_concat inside ends
  have last := Document.endOf_concat inside ends fileId
  have splits := (Parser.nodesOf_taken ⟨fileId, commands,
    Token.endOfInputAt (source.placeAt source.length) fileId⟩ content).1
  refine ⟨_, ?_, splits.forall_mem (fun _ _ _ => ⟨rfl, rfl⟩) inside,
    splits.forall_mem (fun _ _ _ => ⟨rfl, rfl⟩) unticketed⟩
  simp only [Document.ofTokens, kept, last, Document.endOfInput]
  simp [Token.endOfInputAt]

/-- **Identity.** A parsed document without definitions and inclusions is expanded to
itself, and without reports; and whatever a document is, its own tokens are read as the same
tree again. -/
theorem expand_parse {source : Text} {table : Catcode.Table} {commands : CommandTable}
    {fileId : FileId} {document : Document}
    (parsed : Document.parse source table commands fileId = .ok document) :
    (∃ diagnostics, Document.ofTokens document.tokens source fileId commands =
      { document with diagnostics }) ∧
    ((∀ token ∈ document.tokens, isInert token = true) →
      ∀ (files : FileSystem) (limits : Limits) (fileTable : FileTable), ∃ diagnostics,
        (expand ⟨files, limits, commands⟩ document Scope.empty fileTable).outcome =
          .ok ({ document with diagnostics }, [])) := by
  obtain ⟨tokens, reports, diagnostics, read, rfl⟩ := document_of_parse parsed
  obtain ⟨again, same⟩ := Document.ofTokens_tokens tokens source fileId commands
  refine ⟨⟨again, same⟩, fun inert files limits fileTable => ⟨again, ?_⟩⟩
  obtain ⟨content, plain⟩ := plain_of_lex read commands diagnostics
  have unbound : ∀ name, Scope.empty.lookup name = none := fun _ => rfl
  have expanded := plain.outcome_expand
    (fun token member => inert token (by rw [plain.tokens]; exact List.mem_append_left _ member))
    ⟨files, limits, commands⟩ unbound fileTable
  rw [expanded]
  exact congrArg (fun document => Except.ok (document, [])) same

/-- A file system without files. -/
def noFiles : FileSystem where
  currentDirectory := ⟨.slash, []⟩
  canonical path := path.canonical ⟨.slash, []⟩
  isAbsolute_canonical _ := rfl
  canonical_canonical path := path.canonical_canonical ⟨.slash, []⟩
  isFile _ := .ok false
  read path := .error (.system .noSuchFile path)

theorem expand_parse_adjacentFormulas :
    ∃ document,
      Document.parse "$a$$b$\\begin\x7bx\x7d" .standard .standard 0 = .ok document ∧
      (∀ token ∈ document.tokens, isInert token = true) ∧ ∃ diagnostics,
        (expand ⟨noFiles, {}, .standard⟩ document Scope.empty
          (FileTable.empty noFiles.currentDirectory)).outcome =
            .ok ({ document with diagnostics }, []) := by
  have checked : ((Document.parse "$a$$b$\\begin\x7bx\x7d" .standard .standard 0).toOption.map
      fun document => document.tokens.all isInert) = some true := by decide +kernel
  cases parsed : Document.parse "$a$$b$\\begin\x7bx\x7d" .standard .standard 0 with
  | error failure =>
    rw [parsed] at checked
    cases checked
  | ok document =>
    rw [parsed] at checked
    have inert : ∀ token ∈ document.tokens, isInert token = true := by
      simpa [Except.toOption] using checked
    exact ⟨document, rfl, inert, (expand_parse parsed).2 inert noFiles {}
      (FileTable.empty noFiles.currentDirectory)⟩

end Expansion

end TexSource
