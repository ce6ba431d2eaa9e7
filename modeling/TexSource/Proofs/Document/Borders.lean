import TexSource.Proofs.Document.Pairing
import TexSource.Proofs.Document.Segments
import TexSource.Proofs.Document.StrayEndings

/-!
# Blanks at the borders of constructs

Where a construct ends in a blank, no blank stands behind it: it lacks its closing token then, and
what stands behind it ended it (`Parser.Reads.tight`). Only blanks that are read as nodes by
themselves stand side by side.
-/

namespace TexSource

namespace Token

variable {token : Token}

theorem isBlank_iff :
    token.isBlank = true ↔ token.isSpace = true ∨ token.isEndOfLine = true := by
  cases kind : token.kind <;> simp [isBlank, isSpace, isEndOfLine, Kind.isBlank, kind]

theorem isBlank_of_isEndGroup (ends : token.isEndGroup = true) : token.isBlank = false := by
  cases kind : token.kind <;> simp_all [isEndGroup, isBlank, Kind.isBlank]

theorem isBlank_of_isCharacter {character : Char} (is : token.isCharacter character = true) :
    token.isBlank = false := by
  cases kind : token.kind <;> simp_all [isCharacter, isBlank, Kind.isBlank]

theorem isBlank_of_isControlSequence (sequence : token.isControlSequence = true) :
    token.isBlank = false := by
  cases kind : token.kind <;> simp_all [isControlSequence, isBlank, Kind.isBlank]

theorem isBlank_of_isMathShift (shift : token.isMathShift = true) : token.isBlank = false := by
  cases kind : token.kind <;> simp_all [isMathShift, isBlank, Kind.isBlank]

end Token

namespace Parser

variable {commands : CommandTable} {level : Nat} {mode : Mode} {ahead middle after : List Token}
  {piece : Piece} {reports : List Report}

theorem isBlank_of_isAt {closing : Closing} {token : Token} (stops : closing.isAt token = true) :
    token.isBlank = false := by
  cases closing with
  | never => cases stops
  | bracket => exact Token.isBlank_of_isCharacter stops
  | shift => exact Token.isBlank_of_isMathShift stops
  | displayShift =>
    have kind : token.kind = .mathShift true := of_decide_eq_true stops
    simp [Token.isBlank, kind, Token.Kind.isBlank]
  | symbol glyph =>
    have kind : token.kind = .controlSymbol (some glyph) := of_decide_eq_true stops
    simp [Token.isBlank, kind, Token.Kind.isBlank]

/-- Nodes end before no blank. -/
theorem Halts.head {closing : Closing} (halts : Halts closing mode ahead) :
    ahead.head?.any Token.isBlank = false := by
  cases ahead with
  | nil => rfl
  | cons token rest =>
    have stops := halts token rfl
    simp only [endsBefore, Bool.or_eq_true, Bool.and_eq_true] at stops
    obtain (⟨-, ends⟩ | ⟨-, word⟩) | closes := stops
    · exact Token.isBlank_of_isEndGroup ends
    · exact Token.isBlank_of_isControlSequence (isControlSequence_of_isControlWord word)
    · exact isBlank_of_isAt closes

theorem Splits.head {tokens others : List Token} (splits : Splits tokens others) :
    others.head?.any Token.isBlank = tokens.head?.any Token.isBlank := by
  cases splits with
  | nil => rfl
  | keep => rfl
  | split doubled => simp [splitShift, Token.isBlank, doubled, Token.Kind.isBlank]

/-- If the last of some tokens is a blank, the next one is none. -/
def Tight (tokens : List Placed) (after : List Token) : Prop :=
  tokens.getLast?.any (·.token.isBlank) = true → after.head?.any Token.isBlank = false

namespace Tight

variable {tokens others : List Placed}

theorem nil (after : List Token) : Tight [] after := nofun

theorem before (solid : after.head?.any Token.isBlank = false) : Tight tokens after :=
  fun _ => solid

theorem concat (tokens : List Placed) {last : Placed} (solid : last.token.isBlank = false)
    (after : List Token) : Tight (tokens ++ [last]) after := by
  intro blank
  simp [solid] at blank

theorem single {last : Placed} (solid : last.token.isBlank = false) (after : List Token) :
    Tight [last] after :=
  concat [] solid after

/-- Only what comes last matters. -/
theorem prepend (tokens : List Placed) (present : others ≠ []) (tight : Tight others after) :
    Tight (tokens ++ others) after := by
  rw [Tight, List.getLast?_append_of_ne_nil _ present]
  exact tight

/-- Tokens with others behind them, of which there may be none. -/
theorem append (first : Tight tokens middle) (second : Tight others after)
    (splits : Splits middle (others.map Placed.token ++ after)) :
    Tight (tokens ++ others) after := by
  by_cases present : others = []
  · subst present
    intro blank
    rw [List.append_nil] at blank
    rw [← first blank]
    exact splits.head
  · exact second.prepend tokens present

/-- Tokens with a closing one, or in front of what ended them. -/
theorem closed (tokens : List Placed) {test : Token → Bool} {closer : Option Placed}
    (closes : Takes test middle closer after)
    (solid : ∀ token, test token = true → token.isBlank = false)
    (halts : middle.head?.any Token.isBlank = false) : Tight (tokens ++ closer.toList) after := by
  cases closes with
  | taken passes => exact concat tokens (solid _ passes) after
  | left => exact before halts

end Tight

def Piece.Tight (after : List Token) : Piece → Prop
  | .node (.leaf _ _) => True
  | piece => Parser.Tight piece.placed after

theorem head_flat (depth : Nat) (rest : List Token) :
    (rest.drop (flatLength depth rest)).head?.any Token.isBlank = false := by
  have ends := head?_drop_flatLength depth rest
  cases found : (rest.drop (flatLength depth rest)).head? with
  | none => rfl
  | some token => exact Token.isBlank_of_isEndGroup (ends token found)

theorem head_verbatim (name : Text) (tokens : List Token) :
    (tokens.drop (verbatimLength name tokens)).head?.any Token.isBlank = false := by
  induction tokens with
  | nil => rfl
  | cons token rest ih =>
    rw [verbatimLength]
    split
    · rename_i ends
      have word := (Bool.and_eq_true_iff.mp ends).1
      exact Token.isBlank_of_isControlSequence (isControlSequence_of_isControlWord word)
    · exact ih

theorem isBlank_of_canStart {token : Token} (accepted : cannotStartArgument token = false) :
    token.isBlank = false := by
  simp only [cannotStartArgument, Bool.or_eq_false_iff] at accepted
  exact accepted.1.1.1.2

/-- A command with no arguments of its own behind its star ends in no blank. -/
theorem tight_head {head : Placed} {star : Option Placed} {test : Token → Bool}
    (solid : head.token.isBlank = false) (starred : Takes test ahead star after)
    (stars : ∀ token, test token = true → token.isBlank = false) :
    Tight (head :: star.toList) after := by
  cases starred with
  | taken passes => exact .concat [head] (stars _ passes) after
  | left => exact .single solid _

/-- **Borders.** What is read ends in no blank, or no blank stands behind it, but for single
blanks. -/
theorem Reads.tight (read : Reads commands level mode ahead piece after reports) :
    piece.Tight after := by
  induction read with
  | stop => exact .nil _
  | next inside first later => exact .before (Reads.next inside first later).halts.head
  | unopened _ _ _ ih => exact ih
  | @group _ _ _ opener children _ _ _ _ _ _ _ _ inside closes =>
    exact .closed (opener :: placedAll children) closes
      (fun _ => Token.isBlank_of_isEndGroup) inside.halts.head
  | @flatGroup _ _ _ opener children _ _ rest _ _ _ _ closes =>
    exact .closed (opener :: placedAll children) closes
      (fun _ => Token.isBlank_of_isEndGroup) (head_flat 0 rest)
  | strayGroupEnd => exact trivial
  | strayEnding _ _ ih => exact ih
  | @math _ _ _ opener closing children _ _ _ middle _ _ _ _ _ _ inside closes =>
    refine .closed (opener :: placedAll children) closes (fun _ => isBlank_of_isAt) ?_
    rw [(closing.splits_ahead middle).head]
    exact inside.halts.head
  | environment _ _ content ended head body behind =>
    rw [Piece.Tight, Piece.placed, Node.placed_environment, Option.toList_map, List.flatMap_map]
    · exact (head.append body content.splits).append behind ended.splits
    · exact nofun
  | nameless _ _ _ _ ih => exact ih
  | plainCommand _ _ ih => exact ih
  | leaf => exact trivial
  | command _ _ sequence starred read ih =>
    have first := tight_head (Token.isBlank_of_isControlSequence sequence) starred
      fun _ passes => Token.isBlank_of_isCharacter (Bool.and_eq_true_iff.mp passes).2
    exact first.append ih read.splits
  | noArguments => exact .nil _
  | omitted _ _ ih => exact ih
  | optional _ _ read later first ih =>
    obtain ⟨id, opener, children, closer, span, rfl⟩ := read.group_bracket
    exact (first.prepend _ (List.cons_ne_nil _ _)).append ih later.splits
  | @bracket _ _ _ opener children _ _ _ _ _ _ _ _ inside closes =>
    exact .closed (opener :: placedAll children) closes
      (fun _ => Token.isBlank_of_isCharacter) inside.halts.head
  | missing => exact .nil _
  | braced _ opens read later first ih =>
    obtain ⟨id, opener, children, closer, span, rfl⟩ := read.group_of_isBeginGroup opens
    exact (first.prepend _ (List.cons_ne_nil _ _)).append ih later.splits
  | single _ _ accepted _ later ih =>
    exact (Tight.concat _ (isBlank_of_canStart accepted) _).append ih later.splits
  | @opening _ _ _ _ head blanks _ _ _ _ _ _ _ _ word _ braced named _ later first ih =>
    obtain ⟨id, opener, children, closer, span, rfl⟩ := named.group_of_isBeginGroup braced
    exact (first.prepend (head :: placedAll blanks) (List.cons_ne_nil _ _)).append ih later.splits
  | @namedEnding _ _ _ _ head blanks _ _ _ _ _ _ braced named ih =>
    obtain ⟨id, opener, children, closer, span, rfl⟩ := named.group_of_isBeginGroup braced
    simpa [Piece.Tight, Command.placed, placedArguments, Node.placed] using
      ih.prepend (head :: placedAll blanks) (List.cons_ne_nil _ _)
  | namelessEnding _ _ word =>
    exact .single (Token.isBlank_of_isControlSequence (isControlSequence_of_isControlWord word)) _
  | @verbatimBody _ _ name _ tokens => exact .before (head_verbatim name tokens)
  | textBody _ _ _ ih => exact ih
  | unended => exact .nil _
  | ended _ ih => simpa [Piece.Tight] using ih

end Parser

end TexSource
