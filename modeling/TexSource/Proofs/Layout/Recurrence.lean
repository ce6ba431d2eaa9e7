import TexSource.Proofs.Layout.Recurrence.Arguments

/-!
# Documents that recur

If all arguments stand behind spaces and none is missing, what is read is read alike where the
tokens ahead differ in blanks (`Parser.Reads.recurs`). Behind other blanks an argument could be
taken from another place, since at most one line end may stand before it.
-/

namespace TexSource

namespace Parser

open Layout

section

variable {options : Options} {commands : CommandTable} {level : Nat} {mode : Mode}
  {ahead middle after rest : List Token} {piece : Piece} {reports : List Report}

theorem recurs_namedEnding (id : NodeId) (span : Span) {head : Placed} {blanks : List Node}
    {nameGroup : Node} (word : head.token.isControlWord "end" = true)
    (leading : Leaves (rest.take (spacesAhead rest)) blanks)
    (braced : (rest.drop (spacesAhead rest)).head?.any Token.isBeginGroup = true)
    (named : Recurs options commands level mode (rest.drop (spacesAhead rest)) (.node nameGroup)
      after) :
    Recurs options commands level mode (head.token :: rest)
      (.ending ⟨id, "end", head, none, [⟨.mandatory, blanks, nameGroup⟩], span⟩
        nameGroup.innerText.strip) after := by
  intro twin later rest' others first twins reread meets
  cases twins
  obtain ⟨other, others, rfl, same, follow⟩ := Abreast.exists_of_cons meets
    (Token.isBlank_of_isControlSequence (isControlSequence_of_isControlWord word))
  cases reread with
  | namelessEnding _ _ _ unbraced =>
    rw [drop_spacesAhead, follow.abreast.any_dropSpaces .isBeginGroup, ← drop_spacesAhead,
      braced] at unbraced
    cases unbraced
  | namedEnding _ _ _ leadingOther _ namedOther =>
    have behindBlanks := follow.abreast.dropSpaces .isBeginGroup braced
    have groups := fun start => named start (.node ..) namedOther
      ⟨behindBlanks, solid_of_any .isBeginGroup braced⟩
    refine ⟨(groups none).1, trivial, fun depth block key => ?_⟩
    rw [Piece.items, Piece.items]
    exact continues_named same leading leadingOther
      (fun start => by
        simpa [argumentsItems, Piece.items] using (groups start).2.2 depth (key <|> block) key) ..

theorem recurs_namelessEnding (id : NodeId) (span : Span) {head : Placed}
    (word : head.token.isControlWord "end" = true)
    (unbraced : (rest.drop (spacesAhead rest)).head?.any Token.isBeginGroup = false) :
    Recurs options commands level mode (head.token :: rest)
      (.ending ⟨id, "end", head, none, [], span⟩ []) rest := by
  intro twin later rest' others first twins reread meets
  cases twins
  obtain ⟨other, others, rfl, same, follow⟩ := Abreast.exists_of_cons meets
    (Token.isBlank_of_isControlSequence (isControlSequence_of_isControlWord word))
  cases reread with
  | namedEnding _ _ _ _ braced =>
    rw [drop_spacesAhead, follow.abreast.any_dropSpaces .isBeginGroup, ← drop_spacesAhead,
      unbraced] at braced
    cases braced
  | namelessEnding =>
    exact ⟨follow.abreast, trivial, fun depth block key =>
      .cons ⟨same, rfl, rfl, rfl, rfl⟩ (.nil (.inl rfl))⟩

theorem recurs_verbatimBody (settled : Settled options commands) {name : Text} {body : List Node}
    (verbatim : commands.isVerbatim name = true)
    (leaves : Leaves (ahead.take (verbatimLength name ahead)) body) :
    Recurs options commands level mode ahead (.body name body)
      (ahead.drop (verbatimLength name ahead)) := by
  intro twin later rest' others first twins reread meets
  cases twins with
  | body sameName =>
    have listed : name ∈ commands.verbatim := by simpa [CommandTable.isVerbatim] using verbatim
    have whole := settled.whole name listed
    obtain rfl := ((sameName name whole).mp rfl).symm
    cases reread with
    | textBody _ text => simp [verbatim] at text
    | verbatimBody _ leavesOther =>
      obtain ⟨⟨gap, other, ends, -, -, respaced⟩, calm⟩ := meets
      obtain ⟨⟨cut, inside⟩, behind⟩ := respaced.verbatim whole
      refine ⟨behind, trivial, fun depth block key => ?_⟩
      have given : first = none ∨ first = some true ∨
          (ahead.take (verbatimLength name ahead)).head?.any Token.isBlank = false ∧
            (later.take (verbatimLength name later)).head?.any Token.isBlank = false :=
        calm.imp_right fun solid => .inr ⟨solid_take solid.1 _, solid_take solid.2 _⟩
      obtain ⟨last, alike⟩ :=
        Alike.of_respaced inside (bodyDepth options depth name) true none given
      have kept : options.verbatimEnvironments.contains name = true := by
        rw [settled.verbatim]
        exact verbatim
      rw [Piece.items, Piece.items, if_pos kept, if_pos kept, verbatimItems_leaves leaves,
        verbatimItems_leaves leavesOther]
      exact ⟨last, alike, .inr ⟨head_verbatim .., head_verbatim ..⟩⟩

theorem recurs_textBody (settled : Settled options commands) {name : Text} {body : List Node}
    (text : commands.isVerbatim name = false)
    (within : Recurs options commands (level + 1) { mode with inEnvironment := true } ahead
      (.sequence .never body) after) :
    Recurs options commands level mode ahead (.body name body) after := by
  intro twin later rest' others first twins reread meets
  cases twins with
  | body sameName =>
    have textOther := (settled.isVerbatim_eq sameName).trans text
    cases reread with
    | verbatimBody verbatim => simp [textOther] at verbatim
    | textBody _ _ readOther =>
      obtain ⟨abreast, calm⟩ := meets
      obtain ⟨behind, -, items⟩ :=
        within first (.sequence ..) readOther ⟨abreast.respaced, .inr calm⟩
      refine ⟨behind, trivial, fun depth block key => ?_⟩
      rw [Piece.items, Piece.items, settled.verbatim, settled.bodyDepth_eq sameName,
        if_neg (by simpa [CommandTable.isVerbatim] using text),
        if_neg (by simpa [CommandTable.isVerbatim] using textOther)]
      exact items _ block key

theorem recurs_unended (absent : ahead.head?.any (Token.isControlWord · "end") = false) :
    Recurs options commands level mode ahead (.behindBody none) ahead := by
  intro twin later rest' others first twins reread meets
  cases twins
  cases reread with
  | unended => exact ⟨meets.1, trivial, fun _ _ _ => .nil meets.2⟩
  | ended readOther =>
    obtain ⟨token, rest, rfl, word⟩ := readOther.exists_ending
    have same := meets.1.any_head (.isControlWord "end")
    simp [absent, word] at same

theorem recurs_ended {invocation : Command} {name : Text}
    (read : Reads commands level mode ahead (.ending invocation name) after reports)
    (within : Recurs options commands level mode ahead (.ending invocation name) after) :
    Recurs options commands level mode ahead (.behindBody (some (invocation, name))) after := by
  intro twin later rest' others first twins reread meets
  cases twins
  cases reread with
  | unended absent =>
    obtain ⟨token, rest, rfl, word⟩ := read.exists_ending
    have same := meets.1.any_head (.isControlWord "end")
    simp [absent, word] at same
  | ended readOther =>
    obtain ⟨behind, -, items⟩ := within first (.ending ..) readOther meets.1
    refine ⟨behind, trivial, fun depth block key => ?_⟩
    simpa [Piece.items] using items depth block key

theorem isSpace_of_isSpaced {kind : ArgumentKind} {tokens : List Token} {leading : List Node}
    {content : Node} (spaced : Argument.IsSpaced ⟨kind, leading, content⟩)
    (leaves : Leaves tokens leading) : ∀ token ∈ tokens, token.isSpace = true := by
  rw [← tokens_leaves leaves]
  simpa [Argument.IsSpaced] using spaced

/-- **Reading again.** What is read, with all arguments behind spaces and none missing, is read
alike where the tokens ahead differ in blanks. -/
theorem Reads.recurs (settled : Settled options commands)
    (read : Reads commands level mode ahead piece after reports) (spaced : piece.IsSpaced)
    (complete : ∀ report ∈ reports, report.problem.kind ≠ .macroArityMismatch) :
    Recurs options commands level mode ahead piece after := by
  induction read with
  | stop halts => exact recurs_stop halts
  | next inside first _ ih others =>
    simp only [Piece.IsSpaced, Piece.walk, walkAll_cons, List.forall_mem_append] at spaced ih others
    rw [List.forall_mem_append] at complete
    exact recurs_next inside first (ih spaced.1 complete.1) (others spaced.2 complete.2)
  | unopened _ _ _ ih => exact ih spaced (List.forall_mem_cons.mp complete).2
  | group room opens inside closes ih =>
    simp only [Piece.IsSpaced, Piece.walk, Node.walk, List.forall_mem_cons] at spaced ih
    rw [List.forall_mem_append] at complete
    exact recurs_group room opens inside (ih spaced.2 complete.1) closes
  | flatGroup deepest opens leaves closes => exact recurs_flatGroup deepest opens leaves closes
  | strayGroupEnd ends => exact recurs_strayGroupEnd ends
  | strayEnding _ read ih =>
    exact recurs_strayEnding read (ih spaced (List.forall_mem_append.mp complete).1)
  | math room text opens closed inside closes ih =>
    simp only [Piece.IsSpaced, Piece.walk, Node.walk, List.forall_mem_cons] at spaced ih
    rw [List.forall_mem_append] at complete
    exact recurs_math room text opens closed inside (ih spaced.2 complete.1) closes
  | environment room opened _ _ head inside behind =>
    simp only [Piece.IsSpaced, Piece.walk, Node.walk_environment, List.forall_mem_cons,
      List.forall_mem_append, Option.toList_map, List.flatMap_map] at spaced head inside behind
    obtain ⟨-, ⟨inHead, inBody⟩, inEnd⟩ := spaced
    simp only [List.forall_mem_append] at complete
    obtain ⟨⟨⟨first, second⟩, third⟩, -⟩ := complete
    exact recurs_environment settled room opened (head inHead first) (inside inBody second)
      (behind inEnd third)
  | nameless room word unbraced read ih =>
    exact recurs_nameless room word unbraced read (ih spaced complete)
  | plainCommand plain read ih => exact recurs_plainCommand plain read (ih spaced complete)
  | leaf single plain => exact recurs_leaf single plain
  | command id span sequence starred _ ih =>
    simp only [Piece.IsSpaced, Piece.walk, Command.walk, List.forall_mem_cons] at spaced ih
    exact recurs_command id span sequence starred (ih spaced complete)
  | noArguments => exact recurs_noArguments
  | omitted absent _ ih => exact recurs_omitted absent (ih spaced complete)
  | optional _ leading read _ first ih =>
    simp only [Piece.IsSpaced, Piece.walk, walkArguments, List.forall_mem_cons,
      List.forall_mem_append] at spaced first ih
    rw [List.forall_mem_append] at complete
    exact recurs_optional leading read (first spaced.2.1.2 complete.1)
      (ih ⟨spaced.1.2, spaced.2.2⟩ complete.2)
  | bracket _ opens _ closes ih =>
    simp only [Piece.IsSpaced, Piece.walk, Node.walk, List.forall_mem_cons] at spaced ih
    rw [List.forall_mem_append] at complete
    exact recurs_bracket opens (ih spaced.2 complete.1) closes
  | missing => exact absurd rfl (complete _ List.mem_cons_self)
  | braced leading opens _ _ first ih =>
    simp only [Piece.IsSpaced, Piece.walk, walkArguments, List.forall_mem_cons,
      List.forall_mem_append] at spaced first ih
    rw [List.forall_mem_append] at complete
    exact recurs_braced leading (isSpace_of_isSpaced spaced.1.1 leading) opens
      (first spaced.2.1.2 complete.1) (ih ⟨spaced.1.2, spaced.2.2⟩ complete.2)
  | single leading stands accepted unbraced _ ih =>
    simp only [Piece.IsSpaced, walkArguments, List.forall_mem_cons, List.forall_mem_append]
      at spaced ih
    exact recurs_single leading (isSpace_of_isSpaced spaced.1.1 leading) stands accepted unbraced
      (ih ⟨spaced.1.2, spaced.2.2⟩ complete)
  | opening id span word leading braced _ called _ first ih =>
    simp only [Piece.IsSpaced, Piece.walk, Command.walk, walkArguments, Node.IsSpaced,
      List.forall_mem_cons, List.forall_mem_append] at spaced first ih
    rw [List.forall_mem_append] at complete
    exact recurs_opening settled id span word leading braced (first spaced.2.1.2 complete.1) called
      (ih ⟨spaced.1.2, spaced.2.2⟩ complete.2)
  | namedEnding id span word leading braced _ ih =>
    simp only [Piece.IsSpaced, Piece.walk, Command.walk, walkArguments, Node.IsSpaced,
      List.forall_mem_cons, List.forall_mem_append] at spaced ih
    exact recurs_namedEnding id span word leading braced (ih spaced.2.1.2 complete)
  | namelessEnding id span word unbraced => exact recurs_namelessEnding id span word unbraced
  | verbatimBody verbatim leaves => exact recurs_verbatimBody settled verbatim leaves
  | textBody _ text _ ih => exact recurs_textBody settled text (ih spaced complete)
  | unended absent => exact recurs_unended absent
  | ended read ih =>
    simp only [Piece.IsSpaced, Piece.walk, Option.toList_some, List.flatMap_singleton] at spaced ih
    exact recurs_ended read (ih spaced complete)

end

end Parser

end TexSource
