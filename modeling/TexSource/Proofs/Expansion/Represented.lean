import TexSource.Proofs.Expansion.Cutoffs
import TexSource.Proofs.Expansion.Spliced

/-!
# Documents that are included, in the tree

The tickets in the tree of what a branch has written are those of its inclusions, each of them once
(`Anchored`). So a directive that the branch follows to a document has one node in the document of
the branch, where the document stands in the place of the directive, unless the parser keeps the
directive as it is written: in a group that is kept flat, or in a verbatim body. Nothing else is
replaced (`represents_nests`).
-/

namespace TexSource

namespace Parser.Splits

variable {tokens others rest : List Token}

/-- Tokens in a row are split one after the other. -/
theorem of_append (splits : Splits (tokens ++ rest) others) :
    ∃ front back, others = front ++ back ∧ Splits tokens front ∧ Splits rest back := by
  induction tokens generalizing others with
  | nil => exact ⟨[], others, rfl, .nil, splits⟩
  | cons token tokens ih =>
    cases splits with
    | keep _ later =>
      obtain ⟨front, back, rfl, first, second⟩ := ih later
      exact ⟨token :: front, back, rfl, .keep token first, second⟩
    | split doubled later =>
      obtain ⟨front, back, rfl, first, second⟩ := ih later
      exact ⟨_ :: _ :: front, back, rfl, .split doubled first, second⟩

/-- Where no math shift is doubled, nothing is split. -/
theorem eq_of_single (splits : Splits tokens others)
    (single : ∀ token ∈ tokens, token.kind ≠ .mathShift true) : others = tokens := by
  induction splits with
  | nil => rfl
  | keep token _ ih =>
    rw [List.forall_mem_cons] at single
    rw [ih single.2]
  | split doubled => exact absurd doubled (single _ List.mem_cons_self)

theorem ticket_eq_none (splits : Splits tokens others)
    (unclaimed : ∀ token ∈ tokens, token.ticket = none) : ∀ token ∈ others, token.ticket = none :=
  splits.forall_mem (fun _ _ _ => ⟨rfl, rfl⟩) unclaimed

end Parser.Splits

namespace Token

variable {label other rest tail : List Token}

theorem single_of_isBrace {token : Token} (brace : token.isBrace = true) :
    token.kind ≠ .mathShift true := by
  intro kind
  simp [isBrace, isBeginGroup, isEndGroup, kind] at brace

namespace NamesFile

theorem splits (names : NamesFile label) (splits : Parser.Splits label other) :
    NamesFile other := by
  cases names with
  | @intro spaces name opener closer blank opens balanced closes =>
    obtain ⟨front, back, rfl, first, second⟩ := splits.of_append
    have same := first.eq_of_single fun token member kind => by
      simpa [isSpace, kind] using blank token member
    subst same
    have single : opener.kind ≠ .mathShift true := single_of_isBrace (by simp [isBrace, opens])
    obtain ⟨back, rfl, grouped⟩ := second.cons_inv single
    obtain ⟨inside, last, rfl, named, ends⟩ := grouped.of_append
    obtain ⟨none, rfl, done⟩ := ends.cons_inv (single_of_isBrace (by simp [isBrace, closes]))
    rw [done.eq_nil]
    refine .intro blank opens ?_ closes
    rw [Balanced, named.depthBehind]
    exact balanced

/-- Where the name of a file ends is settled by the tokens ahead. -/
theorem unique (names : NamesFile label) (named : NamesFile other)
    (same : label ++ rest = other ++ tail) : label = other ∧ rest = tail := by
  cases names with
  | @intro spaces name opener closer blank opens balanced closes =>
    cases named with
    | @intro spaces' name' opener' closer' blank' opens' balanced' closes' =>
      have solid : ∀ {token : Token}, token.isBeginGroup = true → ¬ token.isSpace = true := by
        intro token opens space
        obtain ⟨glyph, kind⟩ := kind_of_isBeginGroup opens
        simp [isSpace, kind] at space
      have front : spaces = spaces' := by
        have first := congrArg (List.takeWhile isSpace) same
        simpa [List.takeWhile_append_of_pos blank, List.takeWhile_append_of_pos blank',
          List.takeWhile_cons_of_neg (solid opens), List.takeWhile_cons_of_neg (solid opens')]
          using first
      subst front
      rw [List.append_assoc, List.append_assoc, List.append_cancel_left_eq] at same
      simp only [List.cons_append, List.append_assoc, List.nil_append, List.cons.injEq] at same
      obtain ⟨rfl, same⟩ := same
      have length := Parser.flatLength_of_depthBehind balanced closes rest
      rw [same, Parser.flatLength_of_depthBehind balanced' closes' tail] at length
      obtain ⟨rfl, behind⟩ := List.append_inj same length.symm
      obtain ⟨rfl, rfl⟩ := List.cons_eq_cons.mp behind
      exact ⟨rfl, rfl⟩

end NamesFile

end Token

namespace Expansion

/-- What is printed in the end for a stretch: the document of a directive, if it is not kept as it
is written. -/
def Stretch.printed (inclusions : Array Inclusion) (kept : Nat → Bool) : Stretch → Text
  | plain tokens => Token.rawText tokens
  | directive number head rest =>
    if kept number then Token.rawText (head :: rest)
    else (inclusions[number]?.map fun inclusion => inclusion.document.sourceText).getD []

namespace Inlines

variable {inclusions : Array Inclusion} {kept : Nat → Bool} {tokens printed rest : List Token}

theorem of_cons {token : Token} (inlines : Inlines inclusions kept (token :: rest) printed)
    (unclaimed : token.ticket = none) :
    ∃ later, printed = token :: later ∧ Inlines inclusions kept rest later := by
  generalize whole : token :: rest = tokens at inlines
  cases inlines with
  | nil => cases whole
  | keep _ later =>
    cases whole
    exact ⟨_, rfl, later⟩
  | replace ticket =>
    rw [← (List.cons_eq_cons.mp whole).1, unclaimed] at ticket
    cases ticket

/-- Tokens without tickets are printed as they are, and what stands behind them by itself. -/
theorem of_append (inlines : Inlines inclusions kept (tokens ++ rest) printed)
    (unclaimed : ∀ token ∈ tokens, token.ticket = none) :
    ∃ later, printed = tokens ++ later ∧ Inlines inclusions kept rest later := by
  induction tokens generalizing printed with
  | nil => exact ⟨printed, rfl, inlines⟩
  | cons token tokens ih =>
    rw [List.forall_mem_cons] at unclaimed
    obtain ⟨later, rfl, behind⟩ := inlines.of_cons unclaimed.1
    obtain ⟨last, rfl, rest⟩ := ih behind unclaimed.2
    exact ⟨last, rfl, rest⟩

/-- What is printed for a directive, and for the tokens behind it. -/
theorem of_directive {head : Token} {number : Nat} {label : List Token}
    (inlines : Inlines inclusions kept (head :: (label ++ rest)) printed)
    (ticket : head.ticket = some number) (names : Token.NamesFile label)
    (unclaimed : ∀ token ∈ label, token.ticket = none) :
    ∃ later, Inlines inclusions kept rest later ∧
      Token.rawText printed =
        (Stretch.directive number head label).printed inclusions kept ++ Token.rawText later := by
  generalize whole : head :: (label ++ rest) = tokens at inlines
  cases inlines with
  | nil => cases whole
  | keep plain later =>
    cases whole
    obtain ⟨last, rfl, behind⟩ := later.of_append unclaimed
    refine ⟨last, behind, ?_⟩
    simp [Stretch.printed, plain number ticket]
  | replace claimed replaced found named later =>
    obtain ⟨rfl, same⟩ := List.cons_eq_cons.mp whole
    obtain ⟨rfl, rfl⟩ := names.unique named same
    obtain rfl := Option.some.inj (claimed.symm.trans ticket)
    refine ⟨_, later, ?_⟩
    simp [Stretch.printed, replaced, found, Document.sourceText_eq_rawText]

/-- **What is printed in the end** is what is printed for one stretch after the other. -/
theorem rawText_eq {stretches : List Stretch} {placed : List Token}
    (proper : ∀ stretch ∈ stretches, stretch.Proper)
    (splits : Parser.Splits (stretches.flatMap Stretch.tokens) placed)
    (inlines : Inlines inclusions kept placed printed) :
    Token.rawText printed = stretches.flatMap (Stretch.printed inclusions kept) := by
  induction stretches generalizing placed printed with
  | nil =>
    obtain rfl := splits.eq_nil
    cases inlines
    rfl
  | cons stretch rest ih =>
    rw [List.forall_mem_cons] at proper
    rw [List.flatMap_cons] at splits ⊢
    cases proper.1 with
    | plain unclaimed =>
      obtain ⟨front, back, rfl, first, second⟩ := splits.of_append
      have unclaimed := first.ticket_eq_none fun token member => (unclaimed token member).ticket
      obtain ⟨later, rfl, behind⟩ := inlines.of_append unclaimed
      rw [Token.rawText_append, first.rawText_eq, ih proper.2 second behind]
      rfl
    | @directive number head label word kind _ names unclaimed =>
      simp only [Stretch.tokens, Scan.enclosed, List.cons_append, List.append_assoc] at splits
      obtain ⟨_, rfl, directed⟩ := splits.cons_inv (by simp)
      obtain ⟨_, rfl, labelled⟩ := directed.cons_inv (by simp [kind])
      obtain ⟨front, _, rfl, first, closed⟩ := labelled.of_append
      obtain ⟨back, rfl, second⟩ := closed.cons_inv (by simp)
      have unclaimed := first.ticket_eq_none fun token member => (unclaimed token member).ticket
      obtain ⟨_, rfl, opened⟩ := inlines.of_cons rfl
      obtain ⟨_, closed, text⟩ := opened.of_directive rfl (names.splits first) unclaimed
      obtain ⟨later, rfl, behind⟩ := closed.of_cons rfl
      rw [Token.rawText_cons, text, Token.rawText_cons, ih proper.2 second behind]
      simp [Stretch.printed, first.rawText_eq]

end Inlines

theorem filterMap_ticket_tokens {stretches : List Stretch}
    (proper : ∀ stretch ∈ stretches, stretch.Proper) :
    (stretches.flatMap Stretch.tokens).filterMap Token.ticket =
      stretches.filterMap Stretch.number? := by
  have silent : ∀ {tokens : List Token}, (∀ token ∈ tokens, token.Unclaimed) →
      tokens.filterMap Token.ticket = [] := fun unclaimed =>
    List.filterMap_eq_nil_iff.mpr fun token member => (unclaimed token member).ticket
  induction stretches with
  | nil => rfl
  | cons stretch rest ih =>
    rw [List.forall_mem_cons] at proper
    rw [List.flatMap_cons, List.filterMap_append, ih proper.2]
    cases proper.1 with
    | plain unclaimed => simp [Stretch.tokens, Stretch.number?, List.filterMap_cons,
      silent unclaimed]
    | directive _ _ _ unclaimed =>
      simp [Stretch.tokens, Stretch.number?, Scan.enclosed, silent unclaimed]

/-- Splitting math shifts changes no tickets. -/
theorem Guarded.filterMap_ticket {isOpen : Bool} {tokens others : List Token}
    (guarded : Guarded isOpen tokens) (splits : Parser.Splits tokens others) :
    others.filterMap Token.ticket = tokens.filterMap Token.ticket := by
  induction splits generalizing isOpen with
  | nil => rfl
  | keep token _ ih =>
    rw [List.filterMap_cons, List.filterMap_cons, ih guarded.2]
  | split doubled _ ih =>
    have unclaimed := guarded.ticket_of_other (by simp [isInclusionToken, doubled])
    rw [List.filterMap_cons_none unclaimed, List.filterMap_cons_none rfl,
      List.filterMap_cons_none rfl, ih guarded.2]

/-- Of the tokens of a node itself, only the one that it stands for has a ticket. -/
theorem filterMap_ticket_marks {commands : CommandTable} {role : Role} {node : Node}
    (sited : Role.Sited commands (role, node)) :
    (node.marks.map Placed.token).filterMap Token.ticket = node.ticket?.toList := by
  have silent : ∀ {marks : List Placed}, (∀ placed ∈ marks, placed.token.ticket = none) →
      (marks.map Placed.token).filterMap Token.ticket = [] := fun unclaimed =>
    List.filterMap_eq_nil_iff.mpr (forall_mem_tokens unclaimed)
  cases node with
  | leaf id placed => cases ticket : placed.token.ticket <;> simp [Node.marks, Node.ticket?, ticket]
  | group | math => exact silent sited
  | command invocation =>
    have starless := silent fun placed member => sited.1 placed (Option.mem_toList.mp member)
    cases ticket : invocation.head.token.ticket <;>
      simp [Node.marks, Node.ticket?, ticket, starless]
  | environment | inclusion => rfl

theorem filterMap_ticket_walk {commands : CommandTable} {nodes : List Node}
    (sited : ∀ node ∈ nodes, ∃ role, Role.Sited commands (role, node)) :
    ((nodes.flatMap Node.marks).map Placed.token).filterMap Token.ticket =
      nodes.filterMap Node.ticket? := by
  induction nodes with
  | nil => rfl
  | cons node rest ih =>
    rw [List.forall_mem_cons] at sited
    obtain ⟨⟨role, own⟩, later⟩ := sited
    rw [List.flatMap_cons, List.map_append, List.filterMap_append, filterMap_ticket_marks own,
      ih later]
    cases ticket : node.ticket? <;> simp [ticket]

/-- An entry with a number that is given once is the only one with it. -/
theorem filter_eq_singleton {Entry : Type} {number? : Entry → Option Nat} {entries : List Entry}
    {entry : Entry} {number : Nat} (once : (entries.filterMap number?).Nodup)
    (member : entry ∈ entries) (own : number? entry = some number) :
    entries.filter (fun other => number? other = some number) = [entry] := by
  induction entries with
  | nil => cases member
  | cons first rest ih =>
    have again : ∀ other ∈ rest, number? other = some number →
        number ∈ rest.filterMap number? := fun other inside same =>
      List.mem_filterMap.mpr ⟨other, inside, same⟩
    by_cases same : number? first = some number
    · rw [List.filterMap_cons_some same, List.nodup_cons] at once
      rcases List.mem_cons.mp member with rfl | inside
      · rw [List.filter_cons_of_pos (by simpa using same), List.filter_eq_nil_iff.mpr]
        exact fun other inside => by simpa using fun same => once.1 (again other inside same)
      · exact absurd (again entry inside own) once.1
    · have inside : entry ∈ rest := by
        rcases List.mem_cons.mp member with rfl | inside
        · exact absurd own same
        · exact inside
      rw [List.filter_cons_of_neg (by simpa using same)]
      refine ih (once.sublist ?_) inside
      exact (List.sublist_cons_self first rest).filterMap number?

theorem eq_of_nodup_numbers {Entry : Type} {number? : Entry → Option Nat} {entries : List Entry}
    {first second : Entry} {number : Nat} (once : (entries.filterMap number?).Nodup)
    (member : first ∈ entries) (own : number? first = some number) (other : second ∈ entries)
    (same : number? second = some number) : second = first := by
  have single := filter_eq_singleton once member own
  have inside : second ∈ entries.filter fun other => number? other = some number :=
    List.mem_filter.mpr ⟨other, decide_eq_true same⟩
  rw [single] at inside
  exact List.mem_singleton.mp inside

end Expansion

/-- Whether the directive with a ticket is kept as it is written, in a group that is kept flat or in
a verbatim body. -/
def Document.keepsFlat (commands : CommandTable) (document : Document) (number : Nat) : Bool :=
  (document.located commands).any fun
    | (role, .leaf _ placed) =>
      (role = .flattened || role = .verbatim) && placed.token.ticket = some number
    | _ => false

theorem Document.keepsFlat_iff {commands : CommandTable} {document : Document} {number : Nat} :
    document.keepsFlat commands number = true ↔
      ∃ role id placed, (role, .leaf id placed) ∈ document.located commands ∧
        (role = .flattened ∨ role = .verbatim) ∧ placed.token.ticket = some number := by
  unfold Document.keepsFlat
  constructor
  · intro kept
    obtain ⟨⟨role, node⟩, found, kept⟩ := List.any_eq_true.mp kept
    cases node with
    | leaf id placed => exact ⟨role, id, placed, found, by simpa using kept⟩
    | _ => cases kept
  · rintro ⟨role, id, placed, found, kept⟩
    exact List.any_eq_true.mpr ⟨_, found, by simpa using kept⟩

namespace Expansion

variable {commands : CommandTable} {inclusions : Array Inclusion} {written : Document}
  {stretches : List Stretch}

/-- The tree of what a branch with some inclusions has written. -/
structure Anchored (commands : CommandTable) (size : Nat) (written : Document) : Prop where
  own : ∀ node ∈ written.walk, node.isInclusion = false
  sited : ∀ entry ∈ written.located commands, Role.Sited commands entry
  tickets : (written.walk.filterMap Node.ticket?).Perm (List.range size)

/-- The tree of stretches. -/
theorem anchored_ofTokens (includes : Parser.Includes commands) {size : Nat}
    (proper : ∀ stretch ∈ stretches, stretch.Proper)
    (numbers : stretches.filterMap Stretch.number? = List.range size)
    {tokens : List Token} (content : Document.contentOf tokens = stretches.flatMap Stretch.tokens)
    (source : Text) (fileId : FileId) :
    Anchored commands size (Document.ofTokens tokens source fileId commands) := by
  obtain ⟨splits, -, own⟩ := Document.splits_placed tokens source fileId commands
  obtain ⟨children, reports, derived⟩ := Document.derived_ofTokens tokens source fileId commands
  generalize Document.ofTokens tokens source fileId commands = written at splits own derived ⊢
  have guarded := guarded_of_proper proper true
  rw [← content] at guarded
  have sited : ∀ entry ∈ written.located commands, Role.Sited commands entry := by
    obtain ⟨span, root⟩ := derived.root
    rw [Document.located, root, Node.located]
    exact List.forall_mem_append.mpr ⟨(derived.reads.sited includes guarded).2,
      List.forall_mem_singleton.mpr nofun⟩
  refine ⟨own, sited, ?_⟩
  have stand : ∀ node ∈ written.root.walk, ∃ role, Role.Sited commands (role, node) := by
    intro node member
    obtain ⟨role, found⟩ := Document.mem_walk_iff.mp member
    exact ⟨role, sited _ found⟩
  have walked := written.root.placed_perm_marks
  have tickets := (walked.map Placed.token).filterMap Token.ticket
  rw [guarded.filterMap_ticket splits, content, filterMap_ticket_tokens proper, numbers,
    filterMap_ticket_walk stand] at tickets
  exact tickets.symm

namespace Anchored

theorem once (anchored : Anchored commands inclusions.size written) :
    (written.walk.filterMap Node.ticket?).Nodup :=
  anchored.tickets.nodup_iff.mpr List.nodup_range

/-- **The tickets of the tree are where they belong.** -/
theorem settled (anchored : Anchored commands inclusions.size written) :
    ∀ node ∈ written.walk, node.Settled commands inclusions (written.keepsFlat commands) := by
  intro node member
  obtain ⟨role, found⟩ := Document.mem_walk_iff.mp member
  have sited := anchored.sited _ found
  cases node with
  | leaf id placed =>
    intro number ticket
    have kept := sited (by simp [Option.mem_def.mp ticket])
    exact Document.keepsFlat_iff.mpr ⟨role, id, placed, found, kept, ticket⟩
  | group | math => exact sited
  | command invocation =>
    refine ⟨sited.1, fun number ticket => ?_⟩
    obtain ⟨starless, names⟩ := sited.2 (by simp [Option.mem_def.mp ticket])
    have own : (Node.command invocation).ticket? = some number := ticket
    refine ⟨?_, ?_, starless, names⟩
    · by_contra kept
      obtain ⟨other, id, placed, present, -, same⟩ :=
        Document.keepsFlat_iff.mp (Bool.not_eq_false _ ▸ kept)
      have stands := Document.mem_walk_iff.mpr ⟨other, present⟩
      cases eq_of_nodup_numbers anchored.once member own stands same
    · have inside := List.mem_filterMap.mpr ⟨_, member, own⟩
      have below := List.mem_range.mp (anchored.tickets.mem_iff.mp inside)
      exact ⟨_, Array.getElem?_eq_getElem below⟩
  | environment => exact sited
  | inclusion => cases anchored.own _ member

/-- A directive that is not kept as it is written is a command. -/
theorem exists_command (anchored : Anchored commands inclusions.size written) {number : Nat}
    (below : number < inclusions.size) (replaced : written.keepsFlat commands number = false) :
    ∃ invocation, .command invocation ∈ written.walk ∧
      invocation.head.token.ticket = some number := by
  obtain ⟨node, walked, ticket⟩ := List.mem_filterMap.mp
    (anchored.tickets.mem_iff.mpr (List.mem_range.mpr below))
  have settled := anchored.settled node walked
  cases node with
  | leaf id placed => simp [settled number ticket] at replaced
  | group | math | environment | inclusion => cases ticket
  | command invocation => exact ⟨invocation, walked, ticket⟩

end Anchored

/-- A token with a ticket is the control word of the directive with its number. -/
theorem exists_directive_of_ticket {token : Token} {number : Nat}
    (proper : ∀ stretch ∈ stretches, stretch.Proper)
    (member : token ∈ stretches.flatMap Stretch.tokens) (ticket : token.ticket = some number) :
    ∃ head rest, Stretch.directive number head rest ∈ stretches ∧
      token = { head with ticket := some number } := by
  obtain ⟨stretch, present, member⟩ := List.mem_flatMap.mp member
  cases proper stretch present with
  | plain unclaimed => simp [(unclaimed token member).ticket] at ticket
  | @directive given head rest _ _ _ _ unclaimed =>
    simp only [Stretch.tokens, Scan.enclosed, List.cons_append, List.mem_cons, List.mem_append,
      List.not_mem_nil, or_false] at member
    rcases member with rfl | rfl | inside | rfl
    · cases ticket
    · cases ticket
      exact ⟨head, rest, present, rfl⟩
    · simp [(unclaimed token inside).ticket] at ticket
    · cases ticket

theorem sublist_filterMap {First Second : Type} {entries : List First}
    {pick other : First → Option Second}
    (agrees : ∀ entry result, pick entry = some result → other entry = some result) :
    (entries.filterMap pick).Sublist (entries.filterMap other) := by
  induction entries with
  | nil => exact .refl _
  | cons entry rest ih =>
    cases picked : pick entry with
    | none =>
      rw [List.filterMap_cons_none picked]
      exact ih.trans ((List.sublist_cons_self entry rest).filterMap other)
    | some result =>
      rw [List.filterMap_cons_some picked, List.filterMap_cons_some (agrees entry result picked)]
      exact ih.cons_cons result

end Expansion

/-- The ticket of the directive in whose place a node stands. -/
def Node.number? : Node → Option Nat
  | .inclusion _ directive _ _ _ _ => directive.head.token.ticket
  | _ => none

theorem Node.number?_eq (node : Node) :
    node.number? = node.included?.bind fun found => found.1.ticket := by
  cases node <;> rfl

namespace Expansion

variable {commands : CommandTable} {inclusions : Array Inclusion} {stretches : List Stretch}
  {settings : Settings} {site : Site} {nested : Nested}

namespace Splicing

variable {kept : Nat → Bool} {walk spliced : List Node} {tokens printed : List Token}

/-- A document has a ticket of its own. -/
theorem once (splicing : Splicing commands inclusions kept walk tokens spliced printed)
    (once : (walk.filterMap Node.ticket?).Nodup) : (spliced.filterMap Node.number?).Nodup := by
  have numbers : spliced.filterMap Node.number? =
      (spliced.filterMap Node.included?).filterMap fun found => found.1.ticket := by
    rw [List.filterMap_filterMap]
    exact congrArg (spliced.filterMap ·) (funext Node.number?_eq)
  rw [numbers, ((splicing.made.filterMap _).nodup_iff), List.filterMap_filterMap]
  refine once.sublist (sublist_filterMap fun node number found => ?_)
  cases node with
  | command invocation =>
    obtain ⟨pair, made, ticket⟩ := Option.bind_eq_some_iff.mp found
    obtain ⟨inclusion, -, rfl⟩ := Option.map_eq_some_iff.mp made
    exact ticket
  | _ => cases found

/-- A directive with a document is represented. -/
theorem exists_inclusion (splicing : Splicing commands inclusions kept walk tokens spliced printed)
    {invocation : Command} {number : Nat} {inclusion : Inclusion}
    (walked : .command invocation ∈ walk) (ticket : invocation.head.token.ticket = some number)
    (found : inclusions[number]? = some inclusion) :
    ∃ id command span,
      .inclusion id command inclusion.fileId inclusion.path inclusion.document span ∈ spliced ∧
        command.head.token = invocation.head.token := by
  have directed : (Node.command invocation).directive? inclusions =
      some (invocation.head.token, inclusion) := by simp [Node.directive?, ticket, found]
  obtain ⟨node, member, included⟩ := List.mem_filterMap.mp
    (splicing.made.mem_iff.mpr (List.mem_filterMap.mpr ⟨_, walked, directed⟩))
  cases node with
  | inclusion id command fileId path document span =>
    obtain ⟨head, rfl⟩ := Prod.mk.inj (Option.some.inj included)
    exact ⟨id, command, span, member, head⟩
  | _ => cases included

/-- A document stands for a directive. -/
theorem exists_directive (splicing : Splicing commands inclusions kept walk tokens spliced printed)
    {node : Node} {token : Token} {inclusion : Inclusion} (member : node ∈ spliced)
    (included : node.included? = some (token, inclusion)) :
    ∃ invocation number, .command invocation ∈ walk ∧ invocation.head.token = token ∧
      token.ticket = some number ∧ inclusions[number]? = some inclusion := by
  obtain ⟨node, walked, directed⟩ := List.mem_filterMap.mp
    (splicing.made.mem_iff.mp (List.mem_filterMap.mpr ⟨node, member, included⟩))
  cases node with
  | command invocation =>
    obtain ⟨inclusion, found, same⟩ := Option.map_eq_some_iff.mp directed
    obtain ⟨rfl, rfl⟩ := Prod.mk.inj same
    obtain ⟨number, ticket, found⟩ := Option.bind_eq_some_iff.mp found
    exact ⟨invocation, number, walked, rfl, ticket, found⟩
  | _ => cases directed

end Splicing

namespace Branch

/-- The tree of what a branch has written, with no documents in it. -/
def written (commands : CommandTable) (document : Document) (branch : Branch) : Document :=
  let endOfInput : Token :=
    { kind := .endOfInput, raw := [], span := document.endOfInput.span }
  Document.ofTokens (branch.output.toList ++ [endOfInput]) document.source document.fileId commands

/-- **What comes of the directives that a branch follows to documents.** -/
structure Represents (settings : Settings) (site : Site) (nested : Nested) (document : Document)
    (first last : Branch) : Prop where
  /-- The inclusions are the documents of the directives. -/
  numbered {number : Nat} {inclusion : Inclusion} : last.inclusions[number]? = some inclusion ↔
    ∃ token directive, Follows settings site nested first number token directive inclusion
  /-- A directive has its place in what is written. -/
  written {number : Nat} {token : Token} {directive : Scan.Directive} {inclusion : Inclusion}
    (follows : Follows settings site nested first number token directive inclusion) :
    ∃ before behind,
      Writes first (before ++ .directive number token directive.tokens :: behind) last
  /-- A directive that is not kept as it is written is represented by one node. -/
  represented {number : Nat} {token : Token} {directive : Scan.Directive} {inclusion : Inclusion}
    (follows : Follows settings site nested first number token directive inclusion)
    (replaced : (last.written settings.commands document).keepsFlat settings.commands number =
      false) :
    ∃ id command span,
      (last.result settings.commands document).walk.filter (·.number? = some number) =
          [.inclusion id command inclusion.fileId inclusion.path inclusion.document span] ∧
        command.head.token = { token with ticket := some number }
  /-- A directive that is kept as it is written is represented by none. -/
  flat {number : Nat}
    (kept : (last.written settings.commands document).keepsFlat settings.commands number = true) :
    (last.result settings.commands document).walk.filter (·.number? = some number) = []
  /-- All documents in the tree are those of directives. -/
  only : ∀ node ∈ (last.result settings.commands document).walk, node.isInclusion = true →
    ∃ number token directive inclusion, node.number? = some number ∧
      Follows settings site nested first number token directive inclusion
  /-- Nothing else is changed in the tree. -/
  unspliced : (last.result settings.commands document).root.unspliced =
    (last.written settings.commands document).root
  /-- The text is that of what is written, with the documents in the places of their directives. -/
  text {stretches : List Stretch}
    (apart : (last.written settings.commands document).walk.any
      (Node.namesVerbatim settings.commands) = false)
    (writes : Writes first stretches last) :
    (last.result settings.commands document).sourceText = stretches.flatMap
      (Stretch.printed last.inclusions
        ((last.written settings.commands document).keepsFlat settings.commands))

variable {document : Document} {shared : Shared} {last : Branch}

/-- What a branch has written from its start on. -/
theorem Writes.ofStart (writes : Writes (.start document shared) stretches last) :
    last.output.toList = stretches.flatMap Stretch.tokens ∧
      stretches.filterMap Stretch.number? = List.range last.inclusions.size := by
  obtain ⟨included, same, numbers⟩ := writes.inclusions
  have size : last.inclusions.size = included.length := by
    rw [← Array.length_toList, same]
    rfl
  refine ⟨writes.output, ?_⟩
  rw [numbers, size, List.range_eq_range']
  rfl

/-- What a branch has written has no end of input in it. -/
theorem Writes.contentOf (writes : Writes (.start document shared) stretches last) {ending : Token}
    (ends : ending.isEndOfInput = true) :
    Document.contentOf (last.output.toList ++ [ending]) = stretches.flatMap Stretch.tokens := by
  rw [writes.ofStart.1]
  refine Document.contentOf_concat (fun token member => ?_) ends
  obtain ⟨stretch, present, member⟩ := List.mem_flatMap.mp member
  cases writes.proper stretch present with
  | plain unclaimed => exact (unclaimed token member).inside
  | directive kind _ _ unclaimed =>
    have inherited : Inherited fun token => token.isEndOfInput = false :=
      ⟨id, fun _ => rfl, fun _ => rfl⟩
    refine Scan.forall_mem_enclosed inherited ?_
      (fun token inside => (unclaimed token inside).inside)
      token member
    simp [Token.isEndOfInput, kind]

/-- The tokens of the tree of what a branch has written. -/
theorem Writes.splits (writes : Writes (.start document shared) stretches last)
    (commands : CommandTable) : Parser.Splits (stretches.flatMap Stretch.tokens)
      (last.written commands document).root.tokens := by
  obtain ⟨splits, -⟩ := Document.splits_placed (last.output.toList ++
    [{ kind := .endOfInput, raw := [], span := document.endOfInput.span }]) document.source
    document.fileId commands
  rwa [writes.contentOf rfl] at splits

/-- A token with a ticket in the tree is the control word of its directive. -/
theorem Writes.eq_of_ticket (writes : Writes (.start document shared) stretches last)
    {number : Nat} {head : Token} {rest : List Token}
    (present : Stretch.directive number head rest ∈ stretches) {commands : CommandTable}
    {token : Token} (member : token ∈ (last.written commands document).root.tokens)
    (ticket : token.ticket = some number) : token = { head with ticket := some number } := by
  have once : (stretches.filterMap Stretch.number?).Nodup := by
    rw [writes.ofStart.2]
    exact List.nodup_range
  have named : ∀ token ∈ stretches.flatMap Stretch.tokens, token.ticket = some number →
      token = { head with ticket := some number } := by
    intro token member ticket
    obtain ⟨other, label, inside, rfl⟩ := exists_directive_of_ticket writes.proper member ticket
    cases eq_of_nodup_numbers once present rfl inside rfl
    rfl
  exact (writes.splits commands).forall_mem (fun _ _ _ => ⟨nofun, nofun⟩) named token member ticket

/-- The inclusions of a run are the documents of the directives that are followed. -/
theorem numbered_run (clears : nested.Clears) (clear : shared.scope.Carries Token.Unclaimed)
    (ran : (start document shared).run settings site nested = .ok last) {number : Nat}
    {inclusion : Inclusion} : last.inclusions[number]? = some inclusion ↔
      ∃ token directive, Follows settings site nested (start document shared) number token
        directive inclusion := by
  have ready := clear_start document clear
  constructor
  · intro present
    obtain ⟨before, _, _, stream, runs, -, rfl⟩ := exists_runs_of_run ran
    exact runs.exists_follows clears ready (Nat.zero_le _) present
  · rintro ⟨token, directive, follows⟩
    exact (follows.writes clears ready ran).1

/-- **What comes of the directives** of a run. -/
theorem represents_run (includes : Parser.Includes settings.commands) (clears : nested.Clears)
    (clear : shared.scope.Carries Token.Unclaimed)
    (ran : (start document shared).run settings site nested = .ok last) :
    Represents settings site nested document (start document shared) last := by
  have ready := clear_start document clear
  obtain ⟨-, stretches, writes⟩ := writes_run clears ready ran
  have anchored : Anchored settings.commands last.inclusions.size
      (last.written settings.commands document) :=
    anchored_ofTokens includes writes.proper writes.ofStart.2 (writes.contentOf rfl) _ _
  have splicing := splicing_spliceNode (last.written settings.commands document).root
    ((last.written settings.commands document).root.id + 1) anchored.settled
  have once := splicing.once anchored.once
  constructor
  case numbered => exact numbered_run clears clear ran
  case written => exact fun follows => (follows.writes clears ready ran).2
  case represented =>
    intro number token directive inclusion follows replaced
    obtain ⟨present, before, behind, written⟩ := follows.writes clears ready ran
    have below := (Array.getElem?_eq_some_iff.mp present).1
    obtain ⟨invocation, walked, ticket⟩ := anchored.exists_command below replaced
    obtain ⟨id, command, span, member, head⟩ := splicing.exists_inclusion walked ticket present
    have own : (Node.inclusion id command inclusion.fileId inclusion.path inclusion.document
        span).number? = some number := (congrArg Token.ticket head).trans ticket
    have mark : invocation.head ∈ (last.written settings.commands document).root.placed :=
      (Node.placed_perm_marks _).mem_iff.mpr
        (List.mem_flatMap.mpr ⟨_, walked, List.mem_cons_self⟩)
    refine ⟨id, command, span, filter_eq_singleton once member own, ?_⟩
    rw [head]
    exact written.eq_of_ticket (List.mem_append_right before List.mem_cons_self)
      (List.mem_map_of_mem mark) ticket
  case flat =>
    intro number kept
    refine List.filter_eq_nil_iff.mpr fun node member own => ?_
    obtain ⟨⟨token, inclusion⟩, included, ticket⟩ := Option.bind_eq_some_iff.mp
      ((Node.number?_eq node).symm.trans (of_decide_eq_true own))
    obtain ⟨invocation, -, walked, rfl, -⟩ := splicing.exists_directive member included
    have replaced := ((anchored.settled _ walked).2 number ticket).1
    simp [kept] at replaced
  case only =>
    intro node member included
    cases node with
    | inclusion id command fileId path inner span =>
      obtain ⟨invocation, number, -, -, ticket, found⟩ := splicing.exists_directive member rfl
      obtain ⟨token, directive, follows⟩ := (numbered_run clears clear ran).mp found
      exact ⟨number, token, directive, _, ticket, follows⟩
    | _ => cases included
  case unspliced => exact unspliced_spliceNode _ _ _ anchored.own
  case text =>
    intro stretches apart writes
    rw [Document.sourceText_eq_rawText, Document.inlined_eq]
    exact (splicing.inlines apart).rawText_eq writes.proper (writes.splits _)

end Branch

/-- The expansion of included documents, if no more tokens than a given number are read in each. -/
def readWithin (settings : Settings) (count : Nat) : (room : Nat) → Nested
  | 0 => none
  | room + 1 => some fun document ancestors shared =>
    let site := siteOf document ancestors shared
    match (Branch.start document shared).runWithin settings site (readWithin settings count room)
        count with
    | some outcome => outcome.map fun branch => (branch.result settings.commands document,
        { branch.shared with scope := branch.shared.scope.popTo site.baseDepth })
    | none => .error ⟨.missingLimit, shared⟩

/-- An expansion of an included document that is carried out is that of a whole branch. -/
theorem run_of_readWithin {settings : Settings} {count room : Nat}
    {document expanded : Document} {ancestors : List FileId} {shared later : Shared}
    {reader : Document → List FileId → Shared → Except Abort (Document × Shared)}
    (present : reader ∈ readWithin settings count (room + 1))
    (done : reader document ancestors shared = .ok (expanded, later)) :
    expandWith settings (readWithin settings count room) document ancestors shared =
      .ok (expanded, later) := by
  obtain rfl := Option.some.inj present
  dsimp only at done
  split at done
  · rename_i outcome ran
    rw [expandWith, Branch.run_of_runWithin ran]
    cases outcome with
    | error abort => cases done
    | ok branch => exact done
  · cases done

theorem keeps_readWithin (settings : Settings) (count room : Nat) :
    (readWithin settings count room).Keeps := by
  induction room with
  | zero => exact nofun
  | succ room ih =>
    intro reader present document ancestors shared expanded later done
    exact keeps_expandWith ih (run_of_readWithin present done)

/-- What is carried out comes to what the whole expansion of included documents comes to. -/
theorem agrees_readWithin (settings : Settings) (count room : Nat) :
    (readWithin settings count room).Agrees (expandIncluded settings room) := by
  have same : settings.under settings.limits = settings := rfl
  induction room with
  | zero => exact nofun
  | succ room ih =>
    intro reader present
    refine ⟨_, rfl, fun document ancestors shared expanded later done uncut => ?_⟩
    have ran := expandWith_of_le (le_rfl_limits settings.limits) ih
      (keeps_readWithin settings count room) (run_of_readWithin present done) uncut
    rwa [same] at ran

/-- A text whose expansion, that of the files it includes too, reads no more tokens in a branch than
a given number and reports nothing, and passes a test in the end. -/
theorem exists_run (settings : Settings) (source : Text) (count : Nat)
    (test : Document → Branch → Bool)
    (checked : ((Document.parse source .standard settings.commands 0).toOption.bind fun document =>
      let shared : Shared := ⟨Scope.empty, .empty settings.files.currentDirectory, #[], []⟩
      (((Branch.start document shared).runWithin settings (siteOf document [document.fileId] shared)
        (readWithin settings count settings.limits.maxIncludeDepth.toNat) count).bind
          Except.toOption).filter
        fun last => last.shared.diagnostics.toList.isEmpty && test document last).isSome = true) :
    ∃ document last, Document.parse source .standard settings.commands 0 = .ok document ∧
      (let shared : Shared := ⟨Scope.empty, .empty settings.files.currentDirectory, #[], []⟩
      (Branch.start document shared).run settings (siteOf document [document.fileId] shared)
        (nestedAt settings 0) = .ok last) ∧
      last.shared.diagnostics.toList = [] ∧ test document last = true := by
  obtain ⟨last, found⟩ := Option.isSome_iff_exists.mp checked
  obtain ⟨document, parsed, ran⟩ := Option.bind_eq_some_iff.mp found
  obtain ⟨ran, passes⟩ := Option.filter_eq_some_iff.mp ran
  obtain ⟨outcome, ran, done⟩ := Option.bind_eq_some_iff.mp ran
  rw [Bool.and_eq_true, List.isEmpty_iff] at passes
  have ran := Branch.run_of_runWithin ran
  have parsed : Document.parse source .standard settings.commands 0 = .ok document := by
    cases outcome : Document.parse source .standard settings.commands 0 <;>
      simp_all [Except.toOption]
  cases outcome with
  | error abort => cases done
  | ok branch =>
    cases done
    have whole := Branch.run_of_le (le_rfl_limits _)
      (agrees_readWithin _ count settings.limits.maxIncludeDepth.toNat)
      (keeps_readWithin _ count settings.limits.maxIncludeDepth.toNat) ran
      (by simp [Uncut, passes.1])
    exact ⟨document, last, parsed, whole, passes⟩

/-- The same for what the text is expanded to. -/
theorem exists_outcome (settings : Settings) (source : Text) (count : Nat)
    (test : Document → Document → Bool)
    (checked : ((Document.parse source .standard settings.commands 0).toOption.bind fun document =>
      let shared : Shared := ⟨Scope.empty, .empty settings.files.currentDirectory, #[], []⟩
      (((Branch.start document shared).runWithin settings (siteOf document [document.fileId] shared)
        (readWithin settings count settings.limits.maxIncludeDepth.toNat) count).bind
          Except.toOption).filter
        fun last => last.shared.diagnostics.toList.isEmpty &&
          test document (last.result settings.commands document)).isSome = true) :
    ∃ document expanded, Document.parse source .standard settings.commands 0 = .ok document ∧
      (expand settings document Scope.empty (.empty settings.files.currentDirectory)).outcome =
        .ok (expanded, []) ∧ test document expanded = true := by
  obtain ⟨document, last, parsed, ran, silent, passes⟩ := exists_run settings source count
    (fun document last => test document (last.result settings.commands document)) checked
  refine ⟨document, _, parsed, ?_, passes⟩
  unfold expand expandNested expandWith
  rw [nestedAt, Nat.sub_zero] at ran
  simp only [ran]
  rw [← silent]
  rfl

/-- A file with a letter, under two names. -/
def letterDisk : FileSystem :=
  let letter := .file (Text.encode "X")
  FileSystem.Snapshot.toFileSystem <|
    ((⟨⟨.slash, []⟩, []⟩ : FileSystem.Snapshot).insert ["f.tex"] letter).insert
      ["\\begin\x7bverbatim\x7d.tex"] letter

def besideLetter : Settings :=
  ⟨letterDisk, {}, .standard⟩

def emptyBesideLetter : Shared :=
  ⟨Scope.empty, .empty letterDisk.currentDirectory, #[], []⟩

/-- The main branch of an expansion beside that file comes to an end. -/
structure EndsBesideLetter (source : Text) (document : Document) (last : Branch) : Prop where
  parsed : Document.parse source .standard .standard 0 = .ok document
  ran : (Branch.start document emptyBesideLetter).run besideLetter
    (siteOf document [document.fileId] emptyBesideLetter) (nestedAt besideLetter 0) = .ok last

/-- A text whose main branch is carried out without a report, and passes a test in the end. -/
theorem exists_endsBesideLetter (source : Text) (count : Nat) (test : Document → Branch → Bool)
    (checked : ((Document.parse source .standard .standard 0).toOption.bind fun document =>
      (((Branch.start document emptyBesideLetter).runWithin besideLetter
        (siteOf document [document.fileId] emptyBesideLetter)
        (readWithin besideLetter count 16) count).bind Except.toOption).filter
        fun last => last.shared.diagnostics.toList.isEmpty && test document last).isSome = true) :
    ∃ document last, EndsBesideLetter source document last ∧ test document last = true := by
  obtain ⟨document, last, parsed, ran, -, passes⟩ :=
    exists_run besideLetter source count test checked
  exact ⟨document, last, ⟨parsed, ran⟩, passes⟩

/-- **No document that is included is lost.** In every branch of an expansion, a directive whose
file is included is represented in the document of the branch by one node with the expanded
document, unless it is kept as it is written, and nothing else is replaced. -/
theorem represents_nests {settings : Settings} {main document : Document} {shared start : Shared}
    {depth : Nat} {ancestors : List FileId} {last : Branch}
    (standard : settings.commands = .standard) (clear : shared.scope.Carries Token.Unclaimed)
    (nests : Nests settings main shared depth document ancestors start)
    (ran : (Branch.start document start).run settings (siteOf document ancestors start)
      (nestedAt settings depth) = .ok last) :
    Branch.Represents settings (siteOf document ancestors start) (nestedAt settings depth) document
      (.start document start) last :=
  Branch.represents_run (standard ▸ Parser.includes_standard) (clears_expandIncluded settings _)
    (nests.clear clear) ran

/-- An included file with a letter stands in the place of its directive. -/
theorem represents_letter :
    ∃ document last, EndsBesideLetter "a\\input\x7bf\x7db" document last ∧
      emptyBesideLetter.scope.Carries Token.Unclaimed ∧
      Branch.Represents besideLetter (siteOf document [document.fileId] emptyBesideLetter)
        (nestedAt besideLetter 0) document (.start document emptyBesideLetter) last ∧
      last.inclusions.size = 1 ∧ (last.result .standard document).sourceText = "aXb" := by
  obtain ⟨document, last, ends, passes⟩ := exists_endsBesideLetter "a\\input\x7bf\x7db" 12
    (fun document last => decide (last.inclusions.size = 1) &&
      decide ((last.result .standard document).sourceText = "aXb")) (by decide +kernel)
  simp only [Bool.and_eq_true, decide_eq_true_eq] at passes
  have clear : emptyBesideLetter.scope.Carries Token.Unclaimed := .empty _
  exact ⟨document, last, ends, clear, represents_nests rfl clear .main ends.ran, passes⟩

/-- A directive in as many groups as are read into each other. -/
def nestedDirective : Text :=
  let opener : Glyph := .char '\x7b'
  let closer : Glyph := .char '\x7d'
  List.replicate 64 opener ++ ("\\input\x7bf\x7d" : Text) ++ List.replicate 64 closer

/-- A directive that is kept as it is written is not represented, and one whose file is called like
the beginning of a verbatim environment is replaced together with what stands behind it. -/
theorem exists_unrepresented :
    (∃ document last token directive inclusion,
      EndsBesideLetter nestedDirective document last ∧
      Branch.Follows besideLetter (siteOf document [document.fileId] emptyBesideLetter)
        (nestedAt besideLetter 0) (.start document emptyBesideLetter) 0 token directive inclusion ∧
      inclusion.document.sourceText = "X" ∧
      (last.result .standard document).walk.any Node.isInclusion = false ∧
      (last.result .standard document).sourceText = nestedDirective) ∧
    ∃ document last,
      EndsBesideLetter "\\input\x7b\\begin\x7bverbatim\x7d\x7dabc" document last ∧
        (last.result .standard document).sourceText = "X" := by
  constructor
  · obtain ⟨document, last, ends, passes⟩ := exists_endsBesideLetter nestedDirective 150
      (fun document last => (last.inclusions[0]?.any fun inclusion : Inclusion =>
          decide (inclusion.document.sourceText = "X")) &&
        !(last.result .standard document).walk.any Node.isInclusion &&
        decide ((last.result .standard document).sourceText = nestedDirective))
      (by decide +kernel)
    simp only [Bool.and_eq_true, Bool.not_eq_true', decide_eq_true_eq, Option.any_eq_true] at passes
    obtain ⟨⟨⟨inclusion, present, text⟩, unrepresented⟩, kept⟩ := passes
    obtain ⟨token, directive, follows⟩ :=
      (Branch.numbered_run (clears_expandIncluded _ _) (.empty _) ends.ran).mp present
    exact ⟨document, last, token, directive, inclusion, ends, follows, text, unrepresented, kept⟩
  · obtain ⟨document, last, ends, passes⟩ := exists_endsBesideLetter
      "\\input\x7b\\begin\x7bverbatim\x7d\x7dabc" 12
      (fun document last => decide ((last.result .standard document).sourceText = "X"))
      (by decide +kernel)
    exact ⟨document, last, ends, of_decide_eq_true passes⟩

end Expansion

end TexSource
