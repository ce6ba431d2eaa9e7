import Mathlib.Data.List.Chain
import TexSource.Highlight
import TexSource.Proofs.Expansion.Identity
import TexSource.Proofs.Expansion.Provenance
import TexSource.Proofs.FileTable

/-!
# Highlighting tiles the file

The marks of a document are on tokens of its own file, in the order of the tree
(`Highlight.marks_markNode`). Stretches are laid from the start of the file on, one
behind the other, whatever the marks are and however they overlap, as long as none of them
stops before it starts (`Highlight.laid_cover`). Tokens of the file do not, whether they
come from the file directly or through an expansion that drops, repeats, and splits them
and mixes them with tokens of other files (`Highlight.Fits`).
-/

namespace TexSource

namespace Highlight

/-- Whether a token was read from the document's own file. -/
def isOwn (fileId : FileId) (token : Token) : Bool :=
  !token.expanded && token.raw ≠ [] && token.span.fileId = fileId

section

variable (fileId : FileId)

/-- Marks are on tokens of the file, each token having one mark at most. -/
def Marks (placed : List Placed) (marks : List Mark) : Prop :=
  (marks.map Mark.token).Sublist ((placed.map Placed.token).filter (isOwn fileId))

namespace Marks

variable {fileId} {placed others : List Placed} {marks more : List Mark}

theorem append (first : Marks fileId placed marks) (second : Marks fileId others more) :
    Marks fileId (placed ++ others) (marks ++ more) := by
  rw [Marks, List.map_append, List.map_append, List.filter_append]
  exact List.Sublist.append first second

/-- Tokens in between may have no mark. -/
theorem skip (placed : List Placed) (later : Marks fileId others marks) :
    Marks fileId (placed ++ others) marks := by
  rw [Marks, List.map_append, List.filter_append]
  exact later.trans (List.sublist_append_right _ _)

end Marks

theorem marks_mark (category context : Category) (placed : Placed) :
    Marks fileId [placed] (mark fileId category context placed.token) := by
  have split : (placed.token.expanded || placed.token.raw = [] ||
      placed.token.span.fileId ≠ fileId) = !isOwn fileId placed.token := by
    simp [isOwn, Bool.not_and]
  unfold Marks mark
  rw [split]
  cases own : isOwn fileId placed.token with
  | true => simp [own]
  | false => simp [own]

theorem marks_markDelimiter (category context : Category) (delimiter : Option Placed) :
    Marks fileId delimiter.toList (markDelimiter fileId category context delimiter) := by
  cases delimiter with
  | none => exact .slnil
  | some placed => simpa [markDelimiter] using marks_mark fileId category context placed

theorem marks_markName (context : Category) (children : List Node) :
    Marks fileId (placedAll children) (markName fileId context children) := by
  unfold markName
  induction placedAll children with
  | nil => exact .slnil
  | cons placed rest ih => exact (marks_mark fileId _ context placed).append ih

variable (failed : List NodeId)

mutual

/-- The marks of a node are on tokens under it. -/
theorem marks_markNode : (outer : Category) → (node : Node) →
    Marks fileId node.placed (markNode fileId failed outer node)
  | _, .leaf _ placed => marks_mark fileId _ _ placed
  | _, .group _ _ opener children closer _ =>
    ((marks_markDelimiter fileId _ _ opener).append (marks_markNodes _ children)).append
      (marks_markDelimiter fileId _ _ closer)
  | _, .math _ _ opener children closer _ =>
    ((marks_mark fileId _ _ opener).append (marks_markNodes _ children)).append
      (marks_markDelimiter fileId _ _ closer)
  | outer, .command invocation => marks_markCommand outer invocation
  | _, .environment _ _ opening body none _ _ =>
    (marks_markEnvironmentCommand _ opening).append (marks_markNodes _ body)
  | _, .environment _ _ opening body (some ending) _ _ =>
    ((marks_markEnvironmentCommand _ opening).append (marks_markNodes _ body)).append
      (marks_markEnvironmentCommand _ ending)
  | _, .inclusion _ directive _ _ _ _ => marks_markCommand _ directive

theorem marks_markCommand : (outer : Category) → (invocation : Command) →
    Marks fileId invocation.placed (markCommand fileId failed outer invocation)
  | _, ⟨_, _, head, star, arguments, _⟩ =>
    ((marks_mark fileId _ _ head).append (marks_markDelimiter fileId _ _ star)).append
      (marks_markArguments _ arguments)

theorem marks_markEnvironmentCommand : (outer : Category) → (invocation : Command) →
    Marks fileId invocation.placed (markEnvironmentCommand fileId failed outer invocation)
  | outer, ⟨id, _, head, star, [], _⟩ => by
    have first := marks_mark fileId .commandName (contextAt failed id outer) head
    have behind := marks_markDelimiter fileId .commandName (contextAt failed id outer) star
    simpa [Command.placed, placedArguments, markEnvironmentCommand] using first.append behind
  | outer, ⟨id, name, head, star, ⟨kind, leading, content⟩ :: rest, span⟩ => by
    have first := marks_mark fileId .commandName (contextAt failed id outer) head
    have before := marks_markNodes (contextAt failed id outer) leading
    have later := marks_markArguments (contextAt failed id outer) rest
    have inside : ∃ marks, Marks fileId content.placed marks ∧
        markEnvironmentCommand fileId failed outer
            ⟨id, name, head, star, ⟨kind, leading, content⟩ :: rest, span⟩ =
          mark fileId .commandName (contextAt failed id outer) head.token ++
            markNodes fileId failed (contextAt failed id outer) leading ++ marks ++
            markArguments fileId failed (contextAt failed id outer) rest := by
      have whole := marks_markNode
        ((contextAt failed id outer).stronger .environmentName) content
      cases content with
      | group nameId _ opener children closer _ =>
        have named := ((marks_markDelimiter fileId .argument
          (contextAt failed nameId (contextAt failed id outer)) opener).append
            (marks_markName fileId (contextAt failed nameId (contextAt failed id outer))
              children)).append (marks_markDelimiter fileId .argument
                (contextAt failed nameId (contextAt failed id outer)) closer)
        exact ⟨_, named, by simp [markEnvironmentCommand]⟩
      | _ => exact ⟨_, whole, by simp only [markEnvironmentCommand]⟩
    obtain ⟨marks, inside, same⟩ := inside
    rw [same]
    have behind := ((before.append inside).append later).skip star.toList
    simpa [Command.placed, placedArguments] using first.append behind

theorem marks_markNodes : (context : Category) → (nodes : List Node) →
    Marks fileId (placedAll nodes) (markNodes fileId failed context nodes)
  | _, [] => .slnil
  | context, node :: rest => (marks_markNode context node).append (marks_markNodes context rest)

theorem marks_markArguments : (context : Category) → (arguments : List Argument) →
    Marks fileId (placedArguments arguments) (markArguments fileId failed context arguments)
  | _, [] => .slnil
  | _, ⟨_, leading, content⟩ :: rest =>
    ((marks_markNodes _ leading).append (marks_markNode _ content)).append
      (marks_markArguments _ rest)

end

end

/-- Stretches of a file (the latest first), laid from its start to an offset. -/
inductive Laid (fileId : FileId) : List Stretch → Nat → Prop where
  | nil : Laid fileId [] 0
  | cons {stretch : Stretch} {stretches : List Stretch}
      (before : Laid fileId stretches stretch.span.start.offset)
      (own : stretch.span.fileId = fileId)
      (nonempty : stretch.span.start.offset < stretch.span.stop.offset)
      (differs : ∀ last ∈ stretches.head?, last.category ≠ stretch.category) :
      Laid fileId (stretch :: stretches) stretch.span.stop.offset

variable {fileId : FileId}

/-- A stretch that is added goes on from where the others stop. -/
theorem laid_extend {stretches : List Stretch} {start : Position}
    (laid : Laid fileId stretches start.offset) (stop : Position) (category : Category) :
    Laid fileId (extend fileId stretches start stop category)
      (max start.offset stop.offset) := by
  unfold extend
  by_cases extent : stop.offset ≤ start.offset
  · rw [if_pos extent, Nat.max_eq_left extent]
    exact laid
  · rw [if_neg extent, Nat.max_eq_right (Nat.le_of_not_le extent)]
    have nonempty : start.offset < stop.offset := Nat.not_le.mp extent
    have added : ∀ {stretches : List Stretch} {first : Position},
        Laid fileId stretches first.offset → first.offset < stop.offset →
        (∀ last ∈ stretches.head?, last.category ≠ category) →
        Laid fileId (⟨⟨first, stop, fileId⟩, category⟩ :: stretches) stop.offset :=
      fun before nonempty differs => .cons before rfl nonempty differs
    cases laid' : stretches with
    | nil => exact added (laid' ▸ laid) nonempty nofun
    | cons last others =>
      rw [laid'] at laid
      dsimp only
      split
      · rename_i same
        have category : last.category = category := by simpa using (Bool.and_eq_true_iff.mp same).1
        generalize start.offset = reached at laid nonempty
        cases laid with
        | cons before own extent differs =>
          exact added before (Nat.lt_trans extent nonempty) (by rw [← category]; exact differs)
      · rename_i apart
        refine added laid nonempty ?_
        intro other found same
        cases found
        generalize start.offset = reached at laid apart
        cases laid with
        | cons before own extent differs => exact apart (by simp [same])

/-- Covering marks lays stretches up to the position that is reached. -/
theorem laid_cover {size : Nat} {marks : List Mark}
    (fits : ∀ mark ∈ marks, mark.token.span.start.offset ≤ mark.token.span.stop.offset ∧
      mark.token.span.stop.offset ≤ size)
    {stretches : List Stretch} {reached : Position} (laid : Laid fileId stretches reached.offset)
    (within : reached.offset ≤ size) :
    Laid fileId (cover fileId stretches reached marks).1
        (cover fileId stretches reached marks).2.offset ∧
      (cover fileId stretches reached marks).2.offset ≤ size := by
  induction marks generalizing stretches reached with
  | nil => exact ⟨laid, within⟩
  | cons mark rest ih =>
    rw [List.forall_mem_cons] at fits
    obtain ⟨⟨ordered, inside⟩, fitsLater⟩ := fits
    unfold cover
    dsimp only
    by_cases covered : mark.token.span.start.offset < reached.offset
    · rw [if_pos covered]
      exact ih fitsLater laid within
    · rw [if_neg covered]
      have filled := laid_extend laid mark.token.span.start .text
      rw [Nat.max_eq_right (Nat.not_lt.mp covered)] at filled
      have marked := laid_extend filled mark.token.span.stop mark.category
      rw [Nat.max_eq_right ordered] at marked
      exact ih fitsLater marked inside

/-- Stretches tile a file of a size: they are stretches of the file, the first of which starts
at its start and the last of which stops at its end. Each of them has an extent, starts where
the one before stops, and has another category than that one. -/
structure Tiles (fileId : FileId) (size : Nat) (stretches : List Stretch) : Prop where
  own : ∀ stretch ∈ stretches, stretch.span.fileId = fileId
  nonempty : ∀ stretch ∈ stretches, stretch.span.start.offset < stretch.span.stop.offset
  first : ∀ stretch ∈ stretches.head?, stretch.span.start.offset = 0
  adjacent : stretches.IsChain fun stretch next =>
    stretch.span.stop.offset = next.span.start.offset ∧ stretch.category ≠ next.category
  last : ∀ stretch ∈ stretches.getLast?, stretch.span.stop.offset = size
  empty : stretches = [] ↔ size = 0

namespace Laid

variable {stretches : List Stretch} {size : Nat}

theorem own (laid : Laid fileId stretches size) :
    ∀ stretch ∈ stretches, stretch.span.fileId = fileId := by
  induction laid with
  | nil => exact fun _ member => nomatch member
  | cons _ own _ _ ih => exact List.forall_mem_cons.mpr ⟨own, ih⟩

theorem nonempty (laid : Laid fileId stretches size) :
    ∀ stretch ∈ stretches, stretch.span.start.offset < stretch.span.stop.offset := by
  induction laid with
  | nil => exact fun _ member => nomatch member
  | cons _ _ nonempty _ ih => exact List.forall_mem_cons.mpr ⟨nonempty, ih⟩

/-- The latest stretch stops at the offset that is reached. -/
theorem latest (laid : Laid fileId stretches size) :
    ∀ stretch ∈ stretches.head?, stretch.span.stop.offset = size := by
  cases laid with
  | nil => exact nofun
  | cons before =>
    intro stretch found
    cases found
    rfl

theorem first (laid : Laid fileId stretches size) :
    ∀ stretch ∈ stretches.getLast?, stretch.span.start.offset = 0 := by
  induction laid with
  | nil => exact nofun
  | @cons stretch stretches before _ _ _ ih =>
    intro other found
    rw [List.getLast?_cons] at found
    cases found
    cases last : stretches.getLast? with
    | none =>
      have alone := List.getLast?_eq_none_iff.mp last
      subst alone
      change stretch.span.start.offset = 0
      generalize stretch.span.start.offset = reached at before ⊢
      cases before
      rfl
    | some earliest => exact ih earliest last

theorem adjacent (laid : Laid fileId stretches size) :
    stretches.IsChain fun next stretch =>
      stretch.span.stop.offset = next.span.start.offset ∧ stretch.category ≠ next.category := by
  induction laid with
  | nil => exact .nil
  | cons before _ _ differs ih =>
    exact List.isChain_cons.mpr
      ⟨fun last found => ⟨before.latest last found, differs last found⟩, ih⟩

theorem eq_nil_iff (laid : Laid fileId stretches size) : stretches = [] ↔ size = 0 := by
  cases laid with
  | nil => exact iff_of_true rfl rfl
  | cons _ _ nonempty _ =>
    exact iff_of_false (List.cons_ne_nil _ _) (Nat.ne_of_gt (Nat.zero_lt_of_lt nonempty))

/-- Stretches that are laid up to the end of a file tile it. -/
theorem tiles (laid : Laid fileId stretches size) : Tiles fileId size stretches.reverse where
  own stretch member := laid.own stretch (List.mem_reverse.mp member)
  nonempty stretch member := laid.nonempty stretch (List.mem_reverse.mp member)
  first := by
    rw [List.head?_reverse]
    exact laid.first
  adjacent := List.isChain_reverse.mpr laid.adjacent
  last := by
    rw [List.getLast?_reverse]
    exact laid.latest
  empty := by
    rw [List.reverse_eq_nil_iff]
    exact laid.eq_nil_iff

end Laid

/-- A token that was read from a file of a size covers a stretch of it, with an extent if it is
a doubled math shift; and the token is no end of input. -/
structure Fits (fileId : FileId) (size : Nat) (token : Token) : Prop where
  content : token.isEndOfInput = false
  extent : isOwn fileId token = true →
    token.span.start.offset ≤ token.span.stop.offset ∧ token.span.stop.offset ≤ size ∧
      (token.kind = .mathShift true → token.span.start.offset < token.span.stop.offset)

/-- No expansion makes tokens of a file that do not fit into it. -/
theorem hereditary_fits (fileId : FileId) (size : Nat) :
    Expansion.Hereditary (Fits fileId size) where
  markExpanded fits := ⟨fits.content, fun own => by simp [isOwn, Token.markExpanded] at own⟩
  withTicket fits ticket := ⟨fits.content, fits.extent⟩
  halves {token} doubled fits := by
    have whole : ∀ half : Token, half.expanded = token.expanded →
        half.span.fileId = token.span.fileId → (token.raw = [] → half.raw = []) →
        isOwn fileId half = true →
        token.span.start.offset < token.span.stop.offset ∧ token.span.stop.offset ≤ size := by
      intro half expanded file written own
      have whole : isOwn fileId token = true := by
        simp only [isOwn, expanded, file, Bool.and_eq_true, decide_eq_true_eq] at own ⊢
        exact ⟨⟨own.1.1, fun empty => own.1.2 (written empty)⟩, own.2⟩
      obtain ⟨_, within, strict⟩ := fits.extent whole
      exact ⟨strict doubled, within⟩
    refine ⟨⟨rfl, fun own => ?_⟩, ⟨rfl, fun own => ?_⟩⟩
    · obtain ⟨strict, within⟩ := whole (Parser.splitShift token).1 rfl rfl
        (fun empty => by simp [Parser.splitShift, empty]) own
      refine ⟨Nat.le_succ _, Nat.le_trans strict within, fun again => ?_⟩
      cases again
    · obtain ⟨strict, within⟩ := whole (Parser.splitShift token).2 rfl rfl
        (fun empty => by simp [Parser.splitShift, empty]) own
      refine ⟨strict, within, fun again => ?_⟩
      cases again
  opener _ := ⟨rfl, fun own => by simp [isOwn] at own⟩
  closer _ := ⟨rfl, fun own => by simp [isOwn] at own⟩

/-- Tokens of a file fit into it. -/
theorem fits_of_lex {source : Text} {table : Catcode.Table} {fileId : FileId}
    {tokens : List Token} {reports : List Diagnostic}
    (read : lex source table fileId = .ok (tokens, reports)) (main : FileId) :
    ∀ token ∈ tokens, token.isEndOfInput = false →
      Fits main (Text.encode source).length token := by
  obtain ⟨content, rfl, tiles⟩ := Lexer.tiles_of_lex read
  intro token member inside
  rcases List.mem_append.mp member with member | last
  · obtain ⟨strict, within⟩ := tiles.offsets member
    exact ⟨inside, fun _ => ⟨Nat.le_of_lt strict, within, fun _ => strict⟩⟩
  · rw [List.mem_singleton.mp last] at inside
    cases inside

/-- **A document whose tokens fit is tiled.** -/
theorem tiles_of_fits {document : Document} {fileId : FileId} {size : Nat}
    (file : document.fileId = fileId) (sized : document.size = size)
    (ends : document.endOfInput.span.stop.offset = size)
    (carries : document.Carries (Fits fileId size)) :
    Tiles fileId size document.highlight := by
  subst file
  have fits : ∀ mark ∈ document.marks, mark.token.span.start.offset ≤
      mark.token.span.stop.offset ∧ mark.token.span.stop.offset ≤ size := by
    intro mark member
    have marked := List.mem_map_of_mem (f := Mark.token) (List.mem_mergeSort.mp member)
    obtain ⟨placed, own⟩ := List.mem_filter.mp
      ((marks_markNode document.fileId _ .text document.root).mem marked)
    obtain ⟨ordered, within, _⟩ := (carries.placed mark.token placed).extent own
    exact ⟨ordered, within⟩
  have start : Laid document.fileId [] Position.start.offset := .nil
  obtain ⟨laid, within⟩ := laid_cover fits start (Nat.zero_le _)
  unfold Document.highlight
  dsimp only
  by_cases open' : (cover document.fileId [] Position.start document.marks).2.offset <
      document.size
  · rw [if_pos open']
    have complete := laid_extend laid document.endOfInput.span.stop .text
    rw [ends, Nat.max_eq_right within] at complete
    exact complete.tiles
  · rw [if_neg open']
    rw [sized] at open'
    rw [Nat.le_antisymm within (Nat.not_lt.mp open')] at laid
    exact laid.tiles

/-- A parsed document ends where its source does. -/
theorem ends_of_parse {source : Text} {table : Catcode.Table} {commands : CommandTable}
    {fileId : FileId} {document : Document}
    (parsed : Document.parse source table commands fileId = .ok document) :
    document.fileId = fileId ∧ document.size = (Text.encode source).length ∧
      document.endOfInput.span.stop.offset = (Text.encode source).length := by
  obtain ⟨tokens, reports, diagnostics, read, rfl⟩ := Expansion.document_of_parse parsed
  obtain ⟨content, rfl, tiles⟩ := Lexer.tiles_of_lex read
  have inside : ∀ token ∈ content, token.isEndOfInput = false := fun token member =>
    (tiles.covers_of_mem member).elim fun _ covers => covers.content
  have last : Document.endOf (content ++
      [Token.endOfInputAt (source.placeAt source.length) fileId]) fileId = _ :=
    Document.endOf_concat inside rfl fileId
  have place := Text.offset_placeAt_append source []
  rw [List.append_nil] at place
  have stop : (Document.endOf (content ++
      [Token.endOfInputAt (source.placeAt source.length) fileId]) fileId).span.stop.offset =
        (Text.encode source).length := by
    rw [last]
    exact place
  have same : (Document.ofTokens (content ++
      [Token.endOfInputAt (source.placeAt source.length) fileId]) source fileId
        commands).endOfInput = _ := Document.endOfInput_ofTokens ..
  exact ⟨rfl, stop, (congrArg (·.span.stop.offset) same).trans stop⟩

/-- Files other than the main one supply tokens with a property, if all tokens of other files
have it. -/
theorem supplies_of_foreign {property : Token → Prop} (hereditary : Expansion.Hereditary property)
    {main : FileId} (foreign : ∀ token : Token, token.span.fileId ≠ main →
      token.isEndOfInput = false → property token) (files : FileSystem) :
    Expansion.Supplies files main property (FileTable.Sound fun _ => True) where
  enter sound path parent := (sound.enter path parent).1
  document sound id := (sound.document (fun _ _ _ => trivial) id).1
  supplied {table _ path parent document} sound apart read := by
    obtain ⟨entered, number⟩ := sound.enter path parent
    have reads : FileTable.Reads files fun _ => True := fun _ _ _ => trivial
    obtain ⟨_, origin⟩ := entered.document reads (table.enter path parent).1.id
    obtain ⟨bytes, _, parsed⟩ := origin document (by rw [read])
    rw [number] at parsed
    refine (Document.carries_parse hereditary parsed ?_).2
    intro tokens reports lexed token member content
    exact foreign token (by rwa [Lexer.fileId_of_lex lexed token member]) content

/-- Tokens of another file fit into a file, as they are none of its own. -/
theorem supplies_fits (files : FileSystem) (main : FileId) (size : Nat) :
    Expansion.Supplies files main (Fits main size) (FileTable.Sound fun _ => True) :=
  supplies_of_foreign (hereditary_fits main size)
    (fun _ apart content => ⟨content, fun own => by simp [isOwn, apart] at own⟩) files

/-- **Highlighting tiles the file.** Whatever the bytes, the category codes, and the commands
are, the stretches of a parsed document tile its bytes; and so do those of what it is expanded
to from an empty scope, whatever files, limits, and file tables there are. -/
theorem highlight_tiling (bytes : List UInt8) (table : Catcode.Table) (commands : CommandTable)
    (fileId : FileId) {document : Document}
    (parsed : Document.parse (Text.decode bytes) table commands fileId = .ok document) :
    document.size = bytes.length ∧ Tiles fileId document.size document.highlight ∧
      ∀ (files : FileSystem) (limits : Expansion.Limits) (others : CommandTable)
        (fileTable : FileTable), fileTable.Arises → ∀ expanded reports,
        (Expansion.expand ⟨files, limits, others⟩ document Scope.empty fileTable).outcome =
          .ok (expanded, reports) →
        expanded.size = bytes.length ∧ Tiles fileId expanded.size expanded.highlight := by
  obtain ⟨rfl, sized, ends⟩ := ends_of_parse parsed
  rw [Text.encode_decode] at sized ends
  have hereditary := hereditary_fits document.fileId bytes.length
  obtain ⟨carries, holds⟩ := Document.carries_parse hereditary parsed
    fun tokens reports read token member content => by
      have fits := fits_of_lex read document.fileId token member content
      rwa [Text.encode_decode] at fits
  refine ⟨sized, sized ▸ tiles_of_fits rfl sized ends carries, ?_⟩
  intro files limits others fileTable arises expanded reports done
  obtain ⟨branch, ended, rfl⟩ := Expansion.carries_expand hereditary
    (supplies_fits files document.fileId bytes.length) holds (.empty _) arises.sound done
  obtain ⟨last, size⟩ := ended.ends (fun _ fits => fits.content) others document
  rw [ends] at size
  have stop : (branch.result others document).endOfInput.span.stop.offset = bytes.length := by
    rw [last]
    exact ends
  exact ⟨size, size ▸ tiles_of_fits rfl size stop (ended.result hereditary others document)⟩

/-- A text with a macro whose use opens a formula, and a doubled math shift. -/
def openedFormula : Text := "\\def\\a\x7b$x\x7d\\a$y$$z$"

theorem highlight_tiling_openedFormula :
    ∃ document expanded reports,
      Document.parse (Text.decode (Text.encode openedFormula)) .standard .standard 0 =
        .ok document ∧
      (FileTable.empty Expansion.noFiles.currentDirectory).Arises ∧
      (Expansion.expand ⟨Expansion.noFiles, {}, .standard⟩ document Scope.empty
        (FileTable.empty Expansion.noFiles.currentDirectory)).outcome = .ok (expanded, reports) ∧
      Tiles 0 document.size document.highlight ∧ Tiles 0 expanded.size expanded.highlight := by
  have checked : ((Document.parse (Text.decode (Text.encode openedFormula)) .standard .standard
      0).toOption.bind fun document => Expansion.mainRun ⟨Expansion.noFiles, {}, .standard⟩
        document Scope.empty (FileTable.empty Expansion.noFiles.currentDirectory) 20).isSome := by
    decide +kernel
  obtain ⟨branch, found⟩ := Option.isSome_iff_exists.mp checked
  obtain ⟨document, parsed, ran⟩ := Option.bind_eq_some_iff.mp found
  cases outcome :
      Document.parse (Text.decode (Text.encode openedFormula)) .standard .standard 0 with
  | error failure =>
    rw [outcome] at parsed
    cases parsed
  | ok other =>
    rw [outcome] at parsed
    cases parsed
    have arises : (FileTable.empty Expansion.noFiles.currentDirectory).Arises := .empty ..
    have done := Expansion.outcome_of_mainRun ran
    obtain ⟨_, tiles, expands⟩ := highlight_tiling _ _ _ _ outcome
    exact ⟨_, _, _, rfl, arises, done, tiles, (expands _ _ _ _ arises _ _ done).2⟩

end Highlight

end TexSource
