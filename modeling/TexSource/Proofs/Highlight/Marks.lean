import TexSource.Proofs.Highlight.Rules
import TexSource.Proofs.Highlight.Shapes

/-!
# Marks follow the prevailing category

The context of a node is what the nodes above it give to all tokens under it, so that a mark is
what prevails in the context and among the categories that the token gets from there on
(`Highlight.Marked`). This holds of every token that has a mark, by induction over the tree
(`Highlight.marked_node`): a node gives to the tokens under it, and leaves those of other nodes
alone.
-/

namespace TexSource

namespace Highlight

variable {failed : List NodeId} {fileId : FileId} {placed : Placed} {token : Token}
  {marks others : List Mark} {outer context category : Category}
  {granted grants : Category → Prop}

/-- Among some marks that are made in a context is one of a token, with what prevails in the context
and among the categories that the token shows. -/
def Marked (marks : List Mark) (context : Category) (granted : Category → Prop) (token : Token) :
    Prop :=
  ∃ category, ⟨token, context.stronger category⟩ ∈ marks ∧ Prevails (Shows token granted) category

namespace Marked

theorem mono (marked : Marked marks context granted token) (more : marks ⊆ others)
    (same : ∀ category, grants category ↔ granted category) :
    Marked others context grants token := by
  obtain rfl : grants = granted := funext fun category => propext (same category)
  obtain ⟨category, member, prevails⟩ := marked
  exact ⟨category, more member, prevails⟩

/-- What a node gives all tokens under it is passed down to them as their context. -/
theorem within {passed : Category} (down : passed.isPassedDown = true)
    (marked : Marked marks (context.stronger passed) granted token)
    (same : ∀ category, grants category ↔
      granted category ∨ (category = passed ∧ category ≠ .text)) :
    Marked marks context grants token := by
  obtain ⟨category, member, holds, strongest, enclosing⟩ := marked
  have names : grants .environmentName ↔ granted .environmentName := by
    rw [same]
    cases passed <;> simp_all [Category.isPassedDown]
  have shows : ∀ other, Shows token grants other ↔ Shows token granted other ∨ other = passed := by
    intro other
    unfold Shows Applies
    rw [same, names]
    cases passed <;> cases other <;> simp_all [Category.isPassedDown]
  refine ⟨passed.stronger category, ?_, ?_, ?_, ?_⟩
  · rwa [← Category.stronger_assoc]
  · rw [shows]
    rcases Category.stronger_eq_or passed category with first | second
    · exact .inr first
    · exact .inl (by rwa [second])
  · intro other shown
    rw [Category.rank_stronger]
    rcases (shows other).mp shown with shown | rfl
    · exact Nat.le_trans (strongest other shown) (Nat.le_max_right ..)
    · exact Nat.le_max_left ..
  · intro named command
    rcases Category.stronger_eq_or passed category with first | second
    · rw [first] at command
      rw [command] at down
      cases down
    · rcases (shows _).mp named with shown | passed
      · exact enclosing shown (second.symm.trans command)
      · rw [← passed] at down
        cases down

end Marked

/-- The mark of a token in a context. -/
theorem marked_mark (context : Category) (own : isOwn fileId token = true)
    (prevails : Prevails (Shows token granted) (if token.isInvalid then .error else category)) :
    Marked (mark fileId category context token) context granted token := by
  refine ⟨_, ?_, prevails⟩
  obtain ⟨⟨fresh, written⟩, file⟩ :
      (token.expanded = false ∧ token.raw ≠ []) ∧ token.span.fileId = fileId := by
    simpa [isOwn] using own
  unfold mark
  rw [if_neg (by simp [fresh, written, file])]
  exact List.mem_singleton.mpr rfl

/-- One category alone; text is not granted, as it always applies. -/
def Only (category other : Category) : Prop :=
  other = category ∧ other ≠ .text

/-- The category of a token to which one category is granted. -/
theorem prevails_only (mixes : token.isComment = true → category = .environmentName) :
    Prevails (Shows token (Only category)) (if token.isInvalid then .error else category) := by
  unfold Shows Applies Only
  cases invalid : token.isInvalid with
  | true =>
    constructor
    · simp
    · intro other _
      cases other <;> simp [Category.rank]
    · simp
  | false =>
    cases comment : token.isComment with
    | true =>
      obtain rfl := mixes comment
      constructor
      · simp
      · rintro (_ | _ | _ | _ | _ | _ | _) <;> simp [Category.rank]
      · simp
    | false =>
      constructor
      · refine ⟨by by_cases text : category = .text <;> simp [text], ?_⟩
        rintro rfl
        simp
      · rintro other ⟨rfl | ⟨-, other⟩ | ⟨-, other⟩ | ⟨rfl, -⟩, -⟩
        · exact Nat.zero_le _
        · cases other
        · cases other
        · exact Nat.le_refl _
      · rintro ⟨shown, -⟩
        simp at shown
        simp [← shown]

/-- The category of a token to which nothing is granted. -/
theorem prevails_leaf (token : Token) :
    Prevails (Shows token (Only .text))
      (if token.isInvalid then .error else leafCategory token) := by
  cases comment : token.isComment with
  | false =>
    rw [leafCategory, comment]
    exact prevails_only (by simp [comment])
  | true =>
    have valid := Token.isInvalid_of_isComment comment
    rw [valid]
    unfold Shows Applies leafCategory Only
    simp only [comment, valid]
    constructor
    · simp
    · rintro (_ | _ | _ | _ | _ | _ | _) <;> simp [Category.rank]
    · simp

/-- A category that is the context made stronger needs no context of its own. -/
theorem mark_stronger (fileId : FileId) (category context : Category) (token : Token) :
    mark fileId (context.stronger category) context token = mark fileId category context token := by
  have same : context.stronger (context.stronger category) = context.stronger category := by
    cases context <;> cases category <;> rfl
  unfold mark
  split
  · rfl
  · dsimp only
    split <;> simp [same]

/-- A context that is weaker than a category does not change it. -/
theorem mark_within {passed : Category} (weak : passed.rank < category.rank) (fileId : FileId)
    (context : Category) (token : Token) :
    mark fileId category (context.stronger passed) token = mark fileId category context token := by
  have same : passed.stronger category = category := if_pos weak
  have failing : passed.stronger .error = .error := by cases passed <;> rfl
  unfold mark
  split
  · rfl
  · dsimp only
    split <;> simp [Category.stronger_assoc, same, failing]

/-- The mark of a token that is no comment. -/
theorem marked_only (context category : Category) (own : isOwn fileId token = true)
    (plain : token.isComment = false) :
    Marked (mark fileId category context token) context (Only category) token :=
  marked_mark context own (prevails_only fun comment => by simp [plain] at comment)

/-- The mark of a delimiter, which is no comment. -/
theorem marked_markDelimiter (context category : Category) {delimiter : Option Placed}
    (member : placed ∈ delimiter) (own : isOwn fileId placed.token = true)
    (plain : ∀ placed ∈ delimiter, placed.token.isComment = false) :
    Marked (markDelimiter fileId category context delimiter) context (Only category)
      placed.token := by
  have marked := marked_only context category own (plain placed member)
  rw [Option.mem_def.mp member]
  simpa [markDelimiter] using marked

section

variable (failed : List NodeId) (own : isOwn fileId placed.token = true)

include own

/-- Tokens that enclose nodes have the category of their context. -/
theorem marked_enclosed (context : Category) {opener closer : Option Placed}
    {children : List Node}
    (opens : ∀ placed ∈ opener, placed.token.isComment = false)
    (closes : ∀ placed ∈ closer, placed.token.isComment = false)
    (distinct : (opener.toList ++ placedAll children ++ closer.toList).Nodup)
    (under : placed ∈ opener.toList ++ placedAll children ++ closer.toList)
    (inside : placed ∈ placedAll children →
      Marked (markNodes fileId failed context children) context
        (Granted failed placed (visitedAll children)) placed.token) :
    Marked (markDelimiter fileId context context opener ++
      markNodes fileId failed context children ++ markDelimiter fileId context context closer)
      context (Granted failed placed (visitedAll children)) placed.token := by
  have without (delimiter : Option Placed) : markDelimiter fileId context context delimiter =
      markDelimiter fileId .text context delimiter := by
    have weakest : context.stronger .text = context := context.stronger_text
    simp only [markDelimiter, ← mark_stronger fileId .text context, weakest]
  rw [without, without]
  -- A delimiter is none of the tokens under the nodes.
  have nothing (outside : placed ∉ placedAll children) (other : Category) :
      Granted failed placed (visitedAll children) other ↔ Only .text other :=
    iff_of_false (not_granted_visitedAll outside) fun text => text.2 text.1
  simp only [List.nodup_append, List.mem_append] at distinct
  rw [List.mem_append, List.mem_append] at under
  rcases under with (under | under) | under
  · have outside : placed ∉ placedAll children := fun inside =>
      distinct.1.2.2 _ under _ inside rfl
    have marked := marked_markDelimiter context .text (Option.mem_toList.mp under) own opens
    exact marked.mono (fun _ member => by simp [member]) (nothing outside)
  · exact (inside under).mono (fun _ member => by simp [member]) fun _ => Iff.rfl
  · have outside : placed ∉ placedAll children := fun inside =>
      distinct.2.2 _ (.inr inside) _ under rfl
    have marked := marked_markDelimiter context .text (Option.mem_toList.mp under) own closes
    exact marked.mono (fun _ member => by simp [member]) (nothing outside)

omit own in
theorem isPassedDown_reportOf (id : NodeId) : (reportOf failed id).isPassedDown = true := by
  unfold reportOf
  split <;> rfl

omit own in
/-- A node with a report passes an error down. -/
theorem marked_under (id : NodeId) (granted : Category → Prop)
    (marked : Marked marks (contextAt failed id outer) granted token)
    (same : ∀ category, grants category ↔
      (category = .error ∧ id ∈ failed) ∨ granted category) :
    Marked marks outer grants token := by
  rw [contextAt_eq] at marked
  refine marked.within (isPassedDown_reportOf failed id) fun category => ?_
  rw [same, or_comm]
  refine or_congr_right ?_
  unfold reportOf
  by_cases failing : id ∈ failed
  · simp only [List.contains_iff_mem, failing, if_true, and_true]
    exact ⟨fun error => ⟨error, by simp [error]⟩, And.left⟩
  · simp only [List.contains_iff_mem, failing, if_false, and_false, false_iff]
    exact fun text => text.2 text.1

/-- Whether a token stands in an argument. -/
def InArgument (placed : Placed) (arguments : List Argument) : Prop :=
  ∃ argument ∈ arguments, placed ∈ argument.content.placed

omit own in
theorem gives_command {invocation : Command} :
    Gives placed (.command invocation) category ↔
      (category = .commandName ∧ (placed = invocation.head ∨ placed ∈ invocation.star)) ∨
        (category = .argument ∧ InArgument placed invocation.arguments) := by
  constructor
  · intro gives
    cases gives with
    | environmentName named => cases named
    | commandName own => exact .inl ⟨rfl, own⟩
    | argument listed under => exact .inr ⟨rfl, _, listed, under⟩
  · rintro (⟨rfl, own⟩ | ⟨rfl, argument, listed, under⟩)
    · exact .commandName own
    · exact .argument listed under

omit own in
theorem gives_environment {id : NodeId} {name : Text} {opening : Command} {body : List Node}
    {ending : Option Command} {matched : Bool} {span : Span} :
    Gives placed (.environment id name opening body ending matched span) category ↔
      category = .environmentName ∧ placed ∈
        placedAll (Node.environment id name opening body ending matched span).nameContent := by
  constructor
  · intro gives
    cases gives with
    | environmentName named => exact ⟨rfl, named⟩
  · rintro ⟨rfl, named⟩
    exact .environmentName named

omit own in
theorem not_gives_group {id : NodeId} {delimiter : Delimiter} {opener closer : Option Placed}
    {children : List Node} {span : Span} :
    ¬ Gives placed (.group id delimiter opener children closer span) category := by
  rintro (_ | named)
  cases named

/-- The name of an environment, within its braces and at them. -/
theorem marked_name (outer : Category) {id : NodeId} {delimiter : Delimiter}
    {opener closer : Option Placed} {children : List Node} {span : Span}
    (formed : (Node.group id delimiter opener children closer span).Formed)
    (distinct : (Node.group id delimiter opener children closer span).placed.Nodup)
    (under : placed ∈ (Node.group id delimiter opener children closer span).placed) :
    Marked (markDelimiter fileId .argument (contextAt failed id outer) opener ++
        markName fileId (contextAt failed id outer) children ++
        markDelimiter fileId .argument (contextAt failed id outer) closer) outer
      (fun category =>
        Grants failed placed (.group id delimiter opener children closer span) category ∨
          category = .argument ∨ (category = .environmentName ∧ placed ∈ placedAll children))
      placed.token := by
  refine marked_under failed id (fun category => category = .argument ∨
    (category = .environmentName ∧ placed ∈ placedAll children)) ?_ fun category => by
    simp [Grants, Node.id, not_gives_group, under]
  generalize contextAt failed id outer = context
  obtain ⟨opens, closes⟩ := formed
  rw [Node.placed] at distinct under
  simp only [List.nodup_append, List.mem_append] at distinct
  rw [List.mem_append, List.mem_append] at under
  -- The braces are an argument, and no part of the name.
  have brace (outside : placed ∉ placedAll children) (category : Category) :
      (category = .argument ∨ (category = .environmentName ∧ placed ∈ placedAll children)) ↔
        Only .argument category := by
    simp only [outside, and_false, or_false]
    exact ⟨fun same => ⟨same, by simp [same]⟩, And.left⟩
  rcases under with (under | under) | under
  · have outside : placed ∉ placedAll children := fun inside =>
      distinct.1.2.2 _ under _ inside rfl
    have marked := marked_markDelimiter context .argument (Option.mem_toList.mp under) own opens
    exact marked.mono (fun _ member => by simp [member]) (brace outside)
  · have marked := marked_mark (context.stronger .argument) own
      (prevails_only fun _ => (rfl : Category.environmentName = _))
    rw [mark_within (by decide)] at marked
    have whole : Marked _ _
        (fun category => category = .environmentName ∨ category = .argument) _ :=
      marked.within rfl fun category => by cases category <;> simp [Only]
    refine whole.mono ?_ fun category => by simp [under, or_comm]
    intro added member
    rw [List.mem_append, List.mem_append]
    refine .inl (.inr (List.mem_flatMap.mpr ⟨placed, under, ?_⟩))
    rwa [mark_stronger]
  · have outside : placed ∉ placedAll children := fun inside =>
      distinct.2.2 _ (.inr inside) _ under rfl
    have marked := marked_markDelimiter context .argument (Option.mem_toList.mp under) own closes
    exact marked.mono (fun _ member => by simp [member]) (brace outside)

omit own in
theorem not_inArgument {arguments : List Argument} (outside : placed ∉ placedArguments arguments) :
    ¬ InArgument placed arguments := by
  rintro ⟨argument, listed, under⟩
  rw [Node.placedArguments_eq_placedAll] at outside
  exact outside ((Node.placed_infix_placedAll
    (List.mem_flatMap.mpr ⟨argument, listed, by simp⟩)).subset under)

/-- A `\begin` or an `\end` with a name. -/
theorem marked_named {id nameId : NodeId} {name : Text} {head : Placed} {kind : ArgumentKind}
    {leading children : List Node} {delimiter : Delimiter} {opener closer : Option Placed}
    {rest : List Argument} {around span : Span} {invocation : Command}
    (shape : invocation = ⟨id, name, head, none,
      ⟨kind, leading, .group nameId delimiter opener children closer around⟩ :: rest, span⟩)
    (formed : ∀ below ∈ invocation.walk, below.Formed) (distinct : invocation.placed.Nodup)
    (under : placed ∈ invocation.placed)
    (before : placed ∈ placedAll leading →
      Marked (markNodes fileId failed (contextAt failed id outer) leading)
        (contextAt failed id outer) (Granted failed placed (visitedAll leading)) placed.token)
    (later : placed ∈ placedArguments rest →
      Marked (markArguments fileId failed (contextAt failed id outer) rest)
        (contextAt failed id outer) (fun category =>
          Granted failed placed (visitedArguments rest) category ∨
            (category = .argument ∧ InArgument placed rest)) placed.token) :
    Marked (markEnvironmentCommand fileId failed outer invocation) outer
      (fun category => Granted failed placed invocation.visitedHeading category ∨
        (category = .environmentName ∧ placed ∈ placedAll invocation.nameContent))
      placed.token := by
  subst shape
  generalize label : Node.group nameId delimiter opener children closer around = group at *
  have braces := formed group (by simp [Command.walk, walkArguments, Node.mem_walk])
  have word := (formed _ List.mem_cons_self).1
  have inName : placed ∈ placedAll children → placed ∈ group.placed := fun inside => by
    simp [← label, Node.placed, inside]
  have within : placed ∈ (Node.command
      ⟨id, name, head, none, ⟨kind, leading, group⟩ :: rest, span⟩).placed := under
  have inArgument : InArgument placed (⟨kind, leading, group⟩ :: rest) ↔
      placed ∈ group.placed ∨ InArgument placed rest := by
    simp [InArgument]
  simp only [Command.placed, placedArguments, Option.toList_none, List.cons_append, List.nil_append,
    List.nodup_cons, List.nodup_append, List.mem_append, List.mem_cons] at distinct under
  obtain ⟨notBehind, ⟨_, apart, first⟩, _, second⟩ := distinct
  refine marked_under failed id (fun category =>
    Gives placed (.command ⟨id, name, head, none, ⟨kind, leading, group⟩ :: rest, span⟩) category ∨
      Granted failed placed (visitedAll leading) category ∨
        Grants failed placed group category ∨
          Granted failed placed (visitedArguments rest) category ∨
            (category = .environmentName ∧ placed ∈ placedAll children)) ?_ ?_
  · simp only [gives_command, inArgument]
    rcases under with rfl | (under | under) | under
    · have notLeading : placed ∉ placedAll leading := fun before => notBehind (.inl (.inl before))
      have notGroup : placed ∉ group.placed := fun inside => notBehind (.inl (.inr inside))
      have notLater : placed ∉ placedArguments rest := fun later => notBehind (.inr later)
      have notName : placed ∉ placedAll children := fun inside => notGroup (inName inside)
      have marked := marked_only (contextAt failed id outer) .commandName own word
      refine marked.mono ?_ fun category => ?_
      · simp [markEnvironmentCommand, ← label]
      · simp +contextual [Only, notGroup, notName, not_inArgument notLater,
          not_granted_visitedAll notLeading, not_granted_visitedArguments notLater,
          not_grants notGroup]
    · have notHead : placed ≠ head := fun same => notBehind (.inl (.inl (same ▸ under)))
      have notGroup : placed ∉ group.placed := fun inside => first _ under _ inside rfl
      have notLater : placed ∉ placedArguments rest := fun later =>
        second _ (.inl under) _ later rfl
      have notName : placed ∉ placedAll children := fun inside => notGroup (inName inside)
      refine (before under).mono (fun _ member => ?_) fun category => ?_
      · simp [markEnvironmentCommand, ← label, member]
      · simp [notHead, notGroup, notName, not_inArgument notLater,
          not_granted_visitedArguments notLater, not_grants notGroup]
    · have notHead : placed ≠ head := fun same => notBehind (.inl (.inr (same ▸ under)))
      have notLeading : placed ∉ placedAll leading := fun before => first _ before _ under rfl
      have notLater : placed ∉ placedArguments rest := fun later =>
        second _ (.inr under) _ later rfl
      subst label
      have marked := marked_name failed own (contextAt failed id outer) braces apart under
      refine marked.mono (fun _ member => ?_) fun category => ?_
      · simp only [List.mem_append] at member
        rcases member with (member | member) | member <;> simp [markEnvironmentCommand, member]
      · simpa [notHead, under, not_granted_visitedAll notLeading,
          not_granted_visitedArguments notLater] using or_left_comm
    · have notHead : placed ≠ head := fun same => notBehind (.inr (same ▸ under))
      have notLeading : placed ∉ placedAll leading := fun before =>
        second _ (.inl before) _ under rfl
      have notGroup : placed ∉ group.placed := fun inside => second _ (.inr inside) _ under rfl
      have notName : placed ∉ placedAll children := fun inside => notGroup (inName inside)
      refine (later under).mono (fun _ member => ?_) fun category => ?_
      · simp [markEnvironmentCommand, ← label, member]
      · simp [notHead, notGroup, notName, not_granted_visitedAll notLeading, not_grants notGroup,
          or_comm]
  · intro category
    subst label
    simp [Command.visitedHeading, Grants, Node.id, within, Command.nameContent, or_assoc]

omit own in
/-- A formula makes its category the context of the tokens in it. -/
theorem gives_math {id : NodeId} {display : Bool} {opener : Placed} {children : List Node}
    {closer : Option Placed} {span : Span}
    (under : placed ∈ (Node.math id display opener children closer span).placed) :
    Gives placed (.math id display opener children closer span) category ↔ category = .math := by
  constructor
  · intro gives
    cases gives with
    | math => rfl
    | environmentName named => cases named
  · rintro rfl
    exact .math under

theorem marked_math {id : NodeId} {display : Bool} {opener : Placed} {children : List Node}
    {closer : Option Placed} {span : Span}
    (formed : (Node.math id display opener children closer span).Formed)
    (distinct : (Node.math id display opener children closer span).placed.Nodup)
    (under : placed ∈ (Node.math id display opener children closer span).placed)
    (inside : (placedAll children).Nodup → placed ∈ placedAll children →
      Marked (markNodes fileId failed ((contextAt failed id outer).stronger .math) children)
        ((contextAt failed id outer).stronger .math)
        (Granted failed placed (visitedAll children)) placed.token) :
    Marked (markNode fileId failed outer (.math id display opener children closer span)) outer
      (Granted failed placed (Node.math id display opener children closer span).visited)
      placed.token := by
  have apart : (placedAll children).Nodup := by
    rw [Node.placed, List.cons_append] at distinct
    exact (List.nodup_append.mp (List.nodup_cons.mp distinct).2).1
  have opens : ∀ placed ∈ some opener, placed.token.isComment = false := by simpa using formed.1
  have marked := marked_enclosed failed own ((contextAt failed id outer).stronger .math) opens
    formed.2 distinct under (inside apart)
  have content : Marked _ _ (fun category => category = .math ∨
      Granted failed placed (visitedAll children) category) _ :=
    marked.within rfl fun category => by cases category <;> simp [or_comm]
  have whole : Marked _ _ (Granted failed placed
      (Node.math id display opener children closer span).visited) _ :=
    marked_under failed id _ content fun category => by
      simp [Node.visited, Grants, Node.id, gives_math under, under, or_assoc]
  exact whole.mono (by simp [markNode, markDelimiter]) fun _ => Iff.rfl

omit own in
/-- The head of an environment and its body. -/
theorem marked_begun (context : Category) {opening : Command} {body : List Node}
    (distinct : (opening.placed ++ placedAll body).Nodup)
    (under : placed ∈ opening.placed ++ placedAll body)
    (head : opening.placed.Nodup → placed ∈ opening.placed →
      Marked (markEnvironmentCommand fileId failed context opening) context
        (fun category => Granted failed placed opening.visitedHeading category ∨
          (category = .environmentName ∧ placed ∈ placedAll opening.nameContent)) placed.token)
    (inside : (placedAll body).Nodup → placed ∈ placedAll body →
      Marked (markNodes fileId failed context body) context
        (Granted failed placed (visitedAll body)) placed.token) :
    Marked (markEnvironmentCommand fileId failed context opening ++
        markNodes fileId failed context body) context
      (fun category => Granted failed placed (opening.visitedHeading ++ visitedAll body) category ∨
        (category = .environmentName ∧ placed ∈ placedAll opening.nameContent)) placed.token := by
  rw [List.nodup_append] at distinct
  rw [List.mem_append] at under
  simp only [granted_append]
  rcases under with under | under
  · have notBody : placed ∉ placedAll body := fun inside => distinct.2.2 _ under _ inside rfl
    refine (head distinct.1 under).mono (List.subset_append_left _ _) fun category => ?_
    simp [not_granted_visitedAll notBody]
  · have notHeading : placed ∉ opening.placed := fun head => distinct.2.2 _ head _ under rfl
    have notName : placed ∉ placedAll opening.nameContent := fun named =>
      notHeading (opening.nameContent_subset named)
    refine (inside distinct.2.1 under).mono (List.subset_append_right _ _) fun category => ?_
    simp [notName, not_granted_visitedHeading notHeading]

omit own in
/-- The head of an environment, its body, and its end. -/
theorem marked_ended (context : Category) {opening ending : Command} {body : List Node}
    (distinct : (opening.placed ++ placedAll body ++ ending.placed).Nodup)
    (under : placed ∈ opening.placed ++ placedAll body ++ ending.placed)
    (begun : (opening.placed ++ placedAll body).Nodup → placed ∈ opening.placed ++ placedAll body →
      Marked marks context
        (fun category =>
          Granted failed placed (opening.visitedHeading ++ visitedAll body) category ∨
            (category = .environmentName ∧ placed ∈ placedAll opening.nameContent)) placed.token)
    (last : ending.placed.Nodup → placed ∈ ending.placed →
      Marked (markEnvironmentCommand fileId failed context ending) context
        (fun category => Granted failed placed ending.visitedHeading category ∨
          (category = .environmentName ∧ placed ∈ placedAll ending.nameContent)) placed.token) :
    Marked (marks ++ markEnvironmentCommand fileId failed context ending) context
      (fun category =>
        Granted failed placed (opening.visitedHeading ++ visitedAll body ++ ending.visitedHeading)
          category ∨ (category = .environmentName ∧ (placed ∈ placedAll opening.nameContent ∨
            placed ∈ placedAll ending.nameContent))) placed.token := by
  rw [List.nodup_append] at distinct
  rw [List.mem_append] at under
  rcases under with under | under
  · have notEnding : placed ∉ ending.placed := fun last => distinct.2.2 _ under _ last rfl
    have notLast : placed ∉ placedAll ending.nameContent := fun named =>
      notEnding (ending.nameContent_subset named)
    refine (begun distinct.1 under).mono (List.subset_append_left _ _) fun category => ?_
    rw [granted_append]
    simp [notLast, not_granted_visitedHeading notEnding]
  · have notHeading : placed ∉ opening.placed := fun head =>
      distinct.2.2 _ (List.mem_append_left _ head) _ under rfl
    have notBody : placed ∉ placedAll body := fun inside =>
      distinct.2.2 _ (List.mem_append_right _ inside) _ under rfl
    have notName : placed ∉ placedAll opening.nameContent := fun named =>
      notHeading (opening.nameContent_subset named)
    refine (last distinct.2.1 under).mono (List.subset_append_right _ _) fun category => ?_
    simp only [granted_append]
    simp [notName, not_granted_visitedHeading notHeading, not_granted_visitedAll notBody]

omit own in
/-- An environment gives the category of names to what stands in its name. -/
theorem marked_environment {id : NodeId} {name : Text} {opening : Command} {body : List Node}
    {ending : Option Command} {matched : Bool} {span : Span} {visited : List Node}
    (under : placed ∈ (Node.environment id name opening body ending matched span).placed)
    (lists : (Node.environment id name opening body ending matched span).visited =
      .environment id name opening body ending matched span :: visited)
    (marked : Marked marks (contextAt failed id outer)
      (fun category => Granted failed placed visited category ∨
        (category = .environmentName ∧ placed ∈ placedAll
          (Node.environment id name opening body ending matched span).nameContent))
      placed.token) :
    Marked marks outer
      (Granted failed placed (Node.environment id name opening body ending matched span).visited)
      placed.token := by
  refine marked_under failed id _ marked fun category => ?_
  rw [lists]
  simp [Grants, Node.id, under, gives_environment, ← or_assoc, or_right_comm]

end

section

variable (failed : List NodeId)

mutual

theorem marked_node (own : isOwn fileId placed.token = true) :
    (outer : Category) → (node : Node) →
    (∀ below ∈ node.walk, below.Formed) → node.placed.Nodup → placed ∈ node.placed →
      Marked (markNode fileId failed outer node) outer (Granted failed placed node.visited)
        placed.token
  | outer, .leaf id leaf, _, _, under => by
    obtain rfl : placed = leaf := List.mem_singleton.mp under
    have plain (category : Category) : ¬ Gives placed (.leaf id placed) category := by
      rintro (_ | named)
      cases named
    have marked := marked_mark (contextAt failed id outer) own (prevails_leaf placed.token)
    exact marked_under failed id _ marked fun category => by
      simp [Node.visited, Grants, Node.id, plain, under, Only]
  | outer, .group id delimiter opener children closer span, formed, distinct, under => by
    have shape := formed _ (Node.mem_walk _)
    have apart : (placedAll children).Nodup := by
      rw [Node.placed, List.append_assoc] at distinct
      exact (List.nodup_append.mp (List.nodup_append.mp distinct).2.1).1
    have marked := marked_enclosed failed own (contextAt failed id outer) shape.1 shape.2 distinct
      under fun inside => marked_nodes own _ children
        (fun node member => formed node (List.mem_cons_of_mem _ member)) apart inside
    exact marked_under failed id _ marked fun category => by
      simp [Node.visited, Grants, Node.id, not_gives_group, under]
  | outer, .math id display opener children closer span, formed, distinct, under => by
    exact marked_math failed own (formed _ (Node.mem_walk _)) distinct under fun apart =>
      marked_nodes own _ children (fun node member => formed node (List.mem_cons_of_mem _ member))
        apart
  | outer, .command invocation, formed, distinct, under =>
    marked_command own outer invocation formed distinct under
  | outer, .environment id name opening body none matched span, formed, distinct, under => by
    have shape := formed _ (Node.mem_walk _)
    exact marked_environment failed under rfl <|
      marked_begun failed (contextAt failed id outer) distinct under
        (marked_heading own _ opening (fun node member => formed node (by simp [Node.walk, member]))
          shape.1)
        (marked_nodes own _ body fun node member => formed node (by simp [Node.walk, member]))
  | outer, .environment id name opening body (some ending) matched span, formed, distinct,
      under => by
    have shape := formed _ (Node.mem_walk _)
    have marked := marked_ended failed (contextAt failed id outer) distinct under
      (fun apart within => marked_begun failed (contextAt failed id outer) apart within
        (marked_heading own _ opening (fun node member => formed node (by simp [Node.walk, member]))
          shape.1)
        (marked_nodes own _ body fun node member => formed node (by simp [Node.walk, member])))
      (marked_heading own _ ending (fun node member => formed node (by simp [Node.walk, member]))
        (shape.2 _ rfl))
    exact marked_environment failed under rfl <|
      marked.mono (by simp [markNode]) fun category => by simp [Node.nameContent]
  | outer, .inclusion id directive path included document span, formed, distinct, under => by
    have plain (category : Category) :
        ¬ Gives placed (.inclusion id directive path included document span) category := by
      rintro (_ | named)
      cases named
    have marked := marked_command own (contextAt failed id outer) directive
      (fun node member => formed node (List.mem_cons_of_mem _ member)) distinct under
    exact marked_under failed id _ marked fun category => by
      simp [Node.visited, Grants, Node.id, plain, under]

theorem marked_command (own : isOwn fileId placed.token = true) :
    (outer : Category) → (invocation : Command) →
    (∀ below ∈ invocation.walk, below.Formed) → invocation.placed.Nodup →
      placed ∈ invocation.placed →
      Marked (markCommand fileId failed outer invocation) outer
        (Granted failed placed invocation.visited) placed.token
  | outer, ⟨id, name, head, star, arguments, span⟩, formed, distinct, under => by
    have shape := formed _ List.mem_cons_self
    rw [Command.placed, List.cons_append, List.nodup_cons, List.nodup_append, List.mem_append]
      at distinct
    rw [Command.placed, List.cons_append, List.mem_cons, List.mem_append] at under
    refine marked_under failed id (fun category =>
      Granted failed placed (visitedArguments arguments) category ∨
        Gives placed (.command ⟨id, name, head, star, arguments, span⟩) category) ?_ ?_
    · simp only [markCommand, gives_command]
      generalize contextAt failed id outer = context
      -- The token itself is no part of the arguments.
      have alone (outside : placed ∉ placedArguments arguments)
          (own : placed = head ∨ placed ∈ star) (category : Category) :
          (Granted failed placed (visitedArguments arguments) category ∨
            (category = .commandName ∧ (placed = head ∨ placed ∈ star)) ∨
              (category = .argument ∧ InArgument placed arguments)) ↔
            Only .commandName category := by
        simp only [not_granted_visitedArguments outside, not_inArgument outside, own, and_true,
          and_false, false_or, or_false]
        exact ⟨fun same => ⟨same, by simp [same]⟩, And.left⟩
      rcases under with rfl | under | under
      · have marked := marked_only context .commandName own shape.1
        exact marked.mono (by simp) (alone (fun inside => distinct.1 (.inr inside)) (.inl rfl))
      · have member := Option.mem_toList.mp under
        have outside : placed ∉ placedArguments arguments := fun inside =>
          distinct.2.2.2 _ under _ inside rfl
        have marked := marked_markDelimiter context .commandName member own shape.2
        exact marked.mono (fun _ member => by simp [member]) (alone outside (.inr member))
      · have notHead : placed ≠ head := fun same => distinct.1 (.inr (same ▸ under))
        have notStar : placed ∉ star := fun member =>
          distinct.2.2.2 _ (Option.mem_toList.mpr member) _ under rfl
        have marked := marked_arguments own context arguments
          (fun node member => formed node (List.mem_cons_of_mem _ member)) distinct.2.2.1 under
        exact marked.mono (fun _ member => by simp [member]) fun category => by
          simp [notHead, notStar]
    · intro category
      have within : placed ∈ (Node.command ⟨id, name, head, star, arguments, span⟩).placed := by
        simpa [Node.placed, Command.placed] using under
      simp only [Command.visited, granted_cons, Grants, Node.id, within, and_true, or_assoc]
      exact or_congr_right or_comm

theorem marked_heading (own : isOwn fileId placed.token = true) :
    (outer : Category) → (invocation : Command) →
    (∀ below ∈ invocation.walk, below.Formed) → invocation.IsHeading → invocation.placed.Nodup →
      placed ∈ invocation.placed →
      Marked (markEnvironmentCommand fileId failed outer invocation) outer
        (fun category => Granted failed placed invocation.visitedHeading category ∨
          (category = .environmentName ∧ placed ∈ placedAll invocation.nameContent)) placed.token
  | outer, ⟨id, name, head, star, [], span⟩, formed, heading, distinct, under => by
    have shape := formed _ List.mem_cons_self
    obtain rfl : star = none := heading.starless
    obtain rfl : placed = head := by simpa [Command.placed, placedArguments] using under
    have marked := marked_only (contextAt failed id outer) .commandName own shape.1
    have whole : Marked _ _ (fun category =>
        (category = .error ∧ id ∈ failed) ∨ Only .commandName category) _ :=
      marked_under failed id _ marked fun _ => Iff.rfl
    refine whole.mono (by simp [markEnvironmentCommand, markDelimiter]) fun category => ?_
    have within : placed ∈ (Node.command ⟨id, name, placed, none, [], span⟩).placed := under
    simp only [Command.visitedHeading, visitedArguments, granted_cons, granted_nil, Grants, Node.id,
      gives_command, within, Command.nameContent, InArgument]
    simp only [Option.not_mem_none, placedAll_nil, List.not_mem_nil, and_true, or_false,
      false_and, exists_false, and_false]
    refine or_congr_right ⟨fun same => ⟨same, by simp [same]⟩, And.left⟩
  | outer, ⟨id, name, head, star, ⟨kind, leading, content⟩ :: rest, span⟩, formed, heading,
      distinct, under => by
    have shape := formed _ List.mem_cons_self
    obtain rfl : star = none := heading.starless
    obtain ⟨nameId, delimiter, opener, children, closer, around, rfl⟩ :=
      Node.exists_of_isGroup (heading.named _ rfl)
    have parts := distinct
    simp only [Command.placed, placedArguments, List.nodup_append] at parts
    refine marked_named failed own rfl formed distinct under (fun before => ?_) fun later => ?_
    · exact marked_nodes own _ leading
        (fun node member => formed node (by simp [Command.walk, walkArguments, member]))
        parts.2.1.1.1 before
    · exact marked_arguments own _ rest
        (fun node member => formed node (by simp [Command.walk, walkArguments, member]))
        parts.2.1.2.1 later

theorem marked_nodes (own : isOwn fileId placed.token = true) :
    (context : Category) → (nodes : List Node) →
    (∀ below ∈ walkAll nodes, below.Formed) → (placedAll nodes).Nodup →
      placed ∈ placedAll nodes →
      Marked (markNodes fileId failed context nodes) context
        (Granted failed placed (visitedAll nodes)) placed.token
  | _, [], _, _, under => nomatch under
  | context, node :: rest, formed, distinct, under => by
    rw [placedAll_cons, List.nodup_append] at distinct
    rw [placedAll_cons, List.mem_append] at under
    rcases under with under | under
    · have outside : placed ∉ placedAll rest := fun later => distinct.2.2 _ under _ later rfl
      have marked := marked_node own context node
        (fun below member => formed below (List.mem_append_left _ member)) distinct.1 under
      exact marked.mono (List.subset_append_left _ _) fun category => by
        simp [visitedAll, not_granted_visitedAll outside]
    · have outside : placed ∉ node.placed := fun before => distinct.2.2 _ before _ under rfl
      have marked := marked_nodes own context rest
        (fun below member => formed below (List.mem_append_right _ member)) distinct.2.1 under
      exact marked.mono (List.subset_append_right _ _) fun category => by
        simp [visitedAll, not_granted_visited outside]

theorem marked_arguments (own : isOwn fileId placed.token = true) :
    (context : Category) → (arguments : List Argument) →
    (∀ below ∈ walkArguments arguments, below.Formed) → (placedArguments arguments).Nodup →
      placed ∈ placedArguments arguments →
      Marked (markArguments fileId failed context arguments) context
        (fun category => Granted failed placed (visitedArguments arguments) category ∨
          (category = .argument ∧ InArgument placed arguments)) placed.token
  | _, [], _, _, under => nomatch under
  | context, ⟨kind, leading, content⟩ :: rest, formed, distinct, under => by
    simp only [placedArguments, List.nodup_append, List.mem_append] at distinct
    rw [placedArguments, List.mem_append, List.mem_append] at under
    have notLater (other : placed ∈ placedAll leading ∨ placed ∈ content.placed) :
        placed ∉ placedArguments rest := fun later => distinct.2.2 _ other _ later rfl
    have inArgument : InArgument placed (⟨kind, leading, content⟩ :: rest) ↔
        placed ∈ content.placed ∨ InArgument placed rest := by
      simp [InArgument]
    simp only [visitedArguments, granted_append, inArgument]
    rcases under with (under | under) | under
    · have outside : placed ∉ content.placed := fun inside =>
        distinct.1.2.2 _ under _ inside rfl
      have behind := notLater (.inl under)
      have marked := marked_nodes own context leading
        (fun node member => formed node (by simp [walkArguments, member])) distinct.1.1 under
      refine marked.mono (fun _ member => by simp [markArguments, member]) fun category => ?_
      simp [not_granted_visited outside, not_granted_visitedArguments behind, outside,
        not_inArgument behind]
    · have outside : placed ∉ placedAll leading := fun before =>
        distinct.1.2.2 _ before _ under rfl
      have behind := notLater (.inr under)
      have marked := marked_node own (context.stronger .argument) content
        (fun node member => formed node (by simp [walkArguments, member])) distinct.1.2.1 under
      have whole : Marked _ _ (fun category => category = .argument ∨
          Granted failed placed content.visited category) _ :=
        marked.within rfl fun category => by cases category <;> simp [or_comm]
      refine whole.mono (fun _ member => by simp [markArguments, member]) fun category => ?_
      simp [not_granted_visitedAll outside, not_granted_visitedArguments behind, under, or_comm]
    · have before : placed ∉ placedAll leading := fun before =>
        distinct.2.2 _ (.inl before) _ under rfl
      have outside : placed ∉ content.placed := fun inside =>
        distinct.2.2 _ (.inr inside) _ under rfl
      have marked := marked_arguments own context rest
        (fun node member => formed node (by simp [walkArguments, member])) distinct.2.1 under
      refine marked.mono (fun _ member => by simp [markArguments, member]) fun category => ?_
      simp [not_granted_visitedAll before, not_granted_visited outside, outside]

end

end

end Highlight

end TexSource
