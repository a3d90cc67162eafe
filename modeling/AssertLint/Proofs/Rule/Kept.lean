import AssertLint.Proofs.Fix.Pieces
import AssertLint.Proofs.Rule.Nesting

/-!
# What a fix of the rule on regular expressions keeps

A fix takes an assertion apart and puts it together again.  The object of the
method and its first argument are moved, the other arguments of the assertion stay
where they are, and so does everything around the assertion.  What is lost is the
name of the method, the literal that its outcome is compared with, and every further
argument of the method.  Where a comment in the old style of web pages comes in front of
the first argument of the method, the rule moves the comment instead, and this file says
nothing of the arguments of the method.
-/

namespace AssertLint

open StateTransition

namespace RegexAssertion

open Cursor (contentChildren inParentheses? mainChildren)

/-- The parts of an assertion that checks a match: its name, the arguments that a fix
replaces and the others; among the replaced ones the argument that holds the match and the
one that its outcome is compared with; and of the match the call of the method, its object,
the name of the method and the list of its arguments. -/
structure Parts where
  name : Cursor
  replaced : List Cursor
  others : List Cursor
  matching : Cursor
  outcome : Option Cursor
  call : Cursor
  object : Cursor
  method : Cursor
  list : Cursor

/-- The first argument of the method. -/
def Parts.argument? (parts : Parts) : Option Cursor :=
  parts.list.mainChildren.head?

/-- The arguments of the method behind the first one. -/
def Parts.further (parts : Parts) : List Cursor :=
  parts.list.mainChildren.tail

/-- A call of an assertion has these parts. -/
structure HasParts (source : Source) (call : Cursor) (parts : Parts) : Prop where
  callee : ∃ callee, call.field? .callee = some callee ∧
    callee.field? .property = some parts.name
  arguments : call.HasArguments mainChildren (parts.replaced ++ parts.others)
  replaced : parts.replaced.Perm (parts.matching :: parts.outcome.toList)
  outcome : ∀ outcome ∈ parts.outcome, AssertsEquality (parts.name.text source) ∧
    ∃ literal, Reaches (inParentheses? mainChildren) outcome literal ∧
      literal.kind ∈ [Kind.trueLiteral, .falseLiteral]
  leads : Reaches (inParentheses? mainChildren) parts.matching parts.call
  isCall : parts.call.kind = .callExpression
  matchingCallee : ∃ callee, parts.call.field? .callee = some callee ∧
    callee.kind = .memberExpression ∧ callee.field? .object = some parts.object ∧
    callee.field? .property = some parts.method
  method : ∃ method : Method, parts.method.text source = method.name
  listFound : parts.call.field? .arguments = some parts.list
  isList : parts.list.kind = .arguments

/-- What becomes of a node when a fix leaves pieces of the source. -/
inductive Fate (source : Source) (parts : Parts) (pieces : List Piece) (node : Cursor) : Prop where
  /-- The text of the node is copied. -/
  | copied (copies : Piece.Copies source pieces node.span)
  /-- The node is around a part that is renamed or moved. -/
  | enclosing {part : Cursor}
      (member : part ∈ parts.name :: parts.object :: parts.argument?.toList)
      (around : node ∈ part.ancestors)
  /-- The node is in a part that is not copied. -/
  | lost {part : Cursor}
      (member : part ∈ parts.name :: parts.method :: (parts.outcome.toList ++ parts.further))
      (inside : part ∈ node.selfAndAncestors)
  /-- The node is a sign or a comment in the argument that holds the match. -/
  | beside (inAside : Cursor.InAside parts.matching node)

/-! ## The parts of an assertion -/

/-- The parts around a call of a method, with the argument of it that the rule reads. -/
theorem CallsMethod.exists_hasParts {source : Source} {call callee name matching object
    argument : Cursor} {method : Method} {others : List Cursor}
    (calls : CallsMethod mainChildren contentChildren source matching method.name object argument)
    (calleeFound : call.field? .callee = some callee)
    (nameFound : callee.field? .property = some name) (replaced : List Cursor)
    (arguments : call.HasArguments mainChildren (replaced ++ others))
    (outcome : Option Cursor) (replacedPerm : replaced.Perm (matching :: outcome.toList))
    (compares : ∀ entry ∈ outcome, AssertsEquality (name.text source) ∧
      ∃ literal, Reaches (inParentheses? mainChildren) entry literal ∧
        literal.kind ∈ [Kind.trueLiteral, .falseLiteral]) :
    ∃ inner property list, list.firstContent? = some argument ∧
      HasParts source call
        ⟨name, replaced, others, matching, outcome, inner, object, property, list⟩ := by
  obtain ⟨inner, leads, isMethodCall⟩ := calls
  obtain ⟨access, property, accessFound, isMember, propertyFound, -, named, objectFound⟩ :=
    isMethodCall.callee
  obtain ⟨further, ⟨list, listFound, isList, contents⟩, -⟩ := isMethodCall.arguments
  have isFirst : list.firstContent? = some argument := by rw [Cursor.firstContent?, contents]; rfl
  exact ⟨inner, property, list, isFirst,
    { callee := ⟨callee, calleeFound, nameFound⟩
      arguments := arguments
      replaced := replacedPerm
      outcome := compares
      leads := leads
      isCall := isMethodCall.isCall
      matchingCallee := ⟨access, accessFound, isMember, objectFound, propertyFound⟩
      method := ⟨method, named⟩
      listFound := listFound
      isList := isList }⟩

/-- The edits of the rule replace the name of the assertion and arguments of it, and they
move the object of the method and its first argument as it is read. -/
theorem Rewrites.exists_parts {source : Source} {call : Cursor} {edits : List Edit}
    (rewrites : Rewrites source call edits) :
    ∃ (parts : Parts) (made : List PieceEdit) (argument : Cursor), HasParts source call parts ∧
      edits = made.map (PieceEdit.asEdit source) ∧
      made.map PieceEdit.span = (parts.name :: parts.replaced).map Cursor.span ∧
      parts.list.firstContent? = some argument ∧
      ∀ part ∈ [parts.object, argument],
        ∃ edit ∈ made, .copied part.span ∈ edit.pieces := by
  cases rewrites with
  | @boolean callee name first text pattern others replacement calleeFound nameFound asserts
      arguments isMatch =>
      obtain ⟨method, object, argument, calls, moved⟩ := isMatch.exists_callsMethod
      obtain ⟨inner, property, list, isFirst, hasParts⟩ :=
        calls.exists_hasParts calleeFound nameFound [first] arguments none
          (List.Perm.refl _) (by simp)
      refine ⟨_, [⟨name.span, [.written replacement.name]⟩,
        ⟨first.span, [.copied text.span, .written ", ", .copied pattern.span]⟩], argument,
        hasParts, ?_, rfl, isFirst, ?_⟩
      · simp only [List.map_cons, List.map_nil, PieceEdit.asEdit, Piece.assemble,
          List.flatMap_cons, List.flatMap_nil, Piece.characters, List.append_nil,
          String.ofList_append, String.ofList_toList, Cursor.text, Source.text,
          String.append_assoc]
      · rcases moved with ⟨rfl, rfl⟩ | ⟨rfl, rfl⟩ <;> simp
  | @equality callee name first second text pattern others replacement calleeFound nameFound asserts
      arguments sides =>
      have compares {outcome entry : Cursor}
          (isOutcome : IsOutcome mainChildren outcome replacement)
          (member : entry ∈ some outcome) : AssertsEquality (name.text source) ∧
            ∃ literal, Reaches (inParentheses? mainChildren) entry literal ∧
              literal.kind ∈ [Kind.trueLiteral, .falseLiteral] := by
        obtain rfl := Option.some.inj member
        exact ⟨asserts, isOutcome.exists_literal⟩
      have hasParts : ∃ matching outcome inner property list, list.firstContent? = some text ∧
          HasParts source call
            ⟨name, [first, second], others, matching, outcome, inner, pattern, property, list⟩ := by
        rcases sides with ⟨isTest, isOutcome⟩ | ⟨isTest, isOutcome⟩
        · have calls : CallsMethod mainChildren contentChildren source first Method.test.name
            pattern text := isTest
          exact ⟨first, some second, calls.exists_hasParts calleeFound nameFound
            [first, second] arguments (some second) (List.Perm.refl _)
            fun _ member => compares isOutcome member⟩
        · have calls : CallsMethod mainChildren contentChildren source second Method.test.name
            pattern text := isTest
          exact ⟨second, some first, calls.exists_hasParts calleeFound nameFound
            [first, second] arguments (some first) (List.Perm.swap second first [])
            fun _ member => compares isOutcome member⟩
      obtain ⟨matching, outcome, inner, property, list, isFirst, hasParts⟩ := hasParts
      refine ⟨_, [⟨name.span, [.written replacement.name]⟩, ⟨first.span, [.copied text.span]⟩,
        ⟨second.span, [.copied pattern.span]⟩], text, hasParts, ?_, rfl, isFirst, ?_⟩
      · simp [PieceEdit.asEdit, Piece.assemble, Piece.characters, Cursor.text, Source.text]
      · simp

/-! ## What becomes of each node -/

section Fates

variable {source : Source} {tree : Node} {call : Cursor} {parts : Parts} {pieces : List Piece}

theorem HasParts.matching_mem (hasParts : HasParts source call parts) :
    parts.matching ∈ parts.replaced :=
  hasParts.replaced.mem_iff.mpr List.mem_cons_self

theorem HasParts.liesIn_name (hasParts : HasParts source call parts)
    (lies : Cursor.LiesIn tree call) : Cursor.LiesIn tree parts.name := by
  obtain ⟨callee, calleeFound, nameFound⟩ := hasParts.callee
  exact (lies.of_field? calleeFound).of_field? nameFound

theorem HasParts.liesIn_replaced (hasParts : HasParts source call parts)
    (lies : Cursor.LiesIn tree call) {replaced : Cursor} (member : replaced ∈ parts.replaced) :
    Cursor.LiesIn tree replaced :=
  liesIn_argument lies hasParts.arguments (List.mem_append_left parts.others member)

theorem HasParts.liesIn_call (hasParts : HasParts source call parts)
    (lies : Cursor.LiesIn tree call) : Cursor.LiesIn tree parts.call :=
  (hasParts.liesIn_replaced lies hasParts.matching_mem).of_reaches
    (fun _ _ => Cursor.mem_children_of_inParentheses?) hasParts.leads

/-- The argument that holds the match is above the call of the method. -/
theorem HasParts.matching_above_call (hasParts : HasParts source call parts) :
    parts.matching ∈ parts.call.selfAndAncestors :=
  Cursor.mem_selfAndAncestors_of_reaches (fun _ _ => Cursor.mem_children_of_inParentheses?)
    hasParts.leads

theorem HasParts.matching_above (hasParts : HasParts source call parts) {child : Cursor}
    (member : child ∈ parts.call.children) : parts.matching ∈ child.selfAndAncestors :=
  Cursor.mem_selfAndAncestors_trans
    (Cursor.mem_selfAndAncestors_of_child member List.mem_cons_self)
    hasParts.matching_above_call

/-- The arguments of an assertion have the same nodes above them. -/
theorem HasParts.ancestors_replaced (hasParts : HasParts source call parts) {replaced : Cursor}
    (member : replaced ∈ parts.replaced) : replaced.ancestors = parts.matching.ancestors := by
  obtain ⟨list, -, -, mainEq⟩ := hasParts.arguments
  have inList {entry : Cursor} (entryMem : entry ∈ parts.replaced) : entry ∈ list.children := by
    have entryIn : entry ∈ list.mainChildren := by
      rw [mainEq]
      exact List.mem_append_left parts.others entryMem
    exact (Cursor.mem_mainChildren_iff.mp entryIn).1
  rw [Cursor.ancestors_of_mem_children (inList member),
    Cursor.ancestors_of_mem_children (inList hasParts.matching_mem)]

/-- The other arguments are behind all that is replaced. -/
theorem HasParts.apart_others (hasParts : HasParts source call parts)
    (wellFormed : tree.WellFormed source) (inTree : call ∈ tree.cursors)
    (isCall : call.kind = .callExpression) {other target : Cursor} (member : other ∈ parts.others)
    (targetMem : target ∈ parts.name :: parts.replaced) : other.span.Apart target.span := by
  right
  rcases List.mem_cons.mp targetMem with rfl | replacedMem
  · obtain ⟨callee, calleeFound, nameFound⟩ := hasParts.callee
    exact property_stop_le_argument_start wellFormed inTree isCall calleeFound nameFound
      hasParts.arguments (List.mem_append_right parts.replaced member)
  · have callPlaced := (Cursor.mem_cursors_iff.mp inTree).wellPlaced wellFormed.placed
    have ordered := pairwise_arguments callPlaced hasParts.arguments
    exact (List.pairwise_append.mp ordered).2.2 target replacedMem other member

/-- The call of the method is above its object. -/
theorem HasParts.call_mem_ancestors (hasParts : HasParts source call parts) :
    parts.call ∈ parts.object.ancestors := by
  obtain ⟨callee, calleeFound, -, objectFound, -⟩ := hasParts.matchingCallee
  rw [Cursor.ancestors_of_mem_children (Cursor.mem_children_of_field? objectFound)]
  exact Cursor.mem_selfAndAncestors_of_child (Cursor.mem_children_of_field? calleeFound)
    List.mem_cons_self

theorem HasParts.liesIn_object (hasParts : HasParts source call parts)
    (lies : Cursor.LiesIn tree call) : Cursor.LiesIn tree parts.object := by
  obtain ⟨callee, calleeFound, -, objectFound, -⟩ := hasParts.matchingCallee
  exact ((hasParts.liesIn_call lies).of_field? calleeFound).of_field? objectFound

theorem HasParts.liesIn_other (hasParts : HasParts source call parts)
    (lies : Cursor.LiesIn tree call) {other : Cursor} (member : other ∈ parts.others) :
    Cursor.LiesIn tree other :=
  liesIn_argument lies hasParts.arguments (List.mem_append_right parts.replaced member)

/-- What the rule reads as the first argument of the method. -/
theorem HasParts.liesIn_read (hasParts : HasParts source call parts)
    (lies : Cursor.LiesIn tree call) {read : Cursor}
    (isFirst : parts.list.firstContent? = some read) : Cursor.LiesIn tree read :=
  ((hasParts.liesIn_call lies).of_field? hasParts.listFound).of_mem_children
    (Cursor.mem_children_of_firstContent? isFirst)

/-- The first argument of the method is read where no comment comes in front of it. -/
theorem Parts.argument?_eq {read : Cursor} (isFirst : parts.list.firstContent? = some read)
    (clear : ¬ parts.list.StartsWithAside) : parts.argument? = some read :=
  (Cursor.head?_mainChildren clear).trans isFirst

theorem Fate.of_below_copied {node part : Cursor} (nodeLies : Cursor.LiesIn tree node)
    (placed : tree.WellPlaced source) (copies : Piece.Copies source pieces part.span)
    (below : part ∈ node.selfAndAncestors) : Fate source parts pieces node :=
  .copied (copies.of_within (nodeLies.within_of_mem_selfAndAncestors placed below))

theorem Fate.of_below_aside {node top aside : Cursor}
    (matchingAbove : parts.matching ∈ top.selfAndAncestors) (isAside : aside.kind.isAside = true)
    (isChild : aside ∈ top.children) (below : aside ∈ node.selfAndAncestors) :
    Fate source parts pieces node :=
  .beside ((Cursor.InAside.of_child isAside isChild below).of_mem_selfAndAncestors matchingAbove)

section Below

variable (hasParts : HasParts source call parts) (lies : Cursor.LiesIn tree call)
  (placed : tree.WellPlaced source) (grammar : tree.FollowsGrammar) {argument : Cursor}
  (isArgument : parts.argument? = some argument)
  (copies : ∀ part ∈ [parts.object, argument], Piece.Copies source pieces part.span)
  {node : Cursor} (nodeLies : Cursor.LiesIn tree node)

include hasParts lies placed grammar copies nodeLies

omit isArgument in
theorem HasParts.fate_below_callee {callee : Cursor}
    (calleeFound : parts.call.field? .callee = some callee)
    (below : callee ∈ node.selfAndAncestors) : Fate source parts pieces node := by
  obtain ⟨callee', calleeFound', isMember, objectFound, methodFound⟩ := hasParts.matchingCallee
  obtain rfl : callee = callee' := Option.some.inj (calleeFound.symm.trans calleeFound')
  have matchingAbove := hasParts.matching_above (Cursor.mem_children_of_field? calleeFound)
  have calleeLies := (hasParts.liesIn_call lies).of_field? calleeFound
  rcases nodeLies.eq_or_below_child below with rfl | ⟨child, childMem, childBelow⟩
  · exact .enclosing (by simp)
      (Cursor.mem_ancestors_of_mem_children (Cursor.mem_children_of_field? objectFound))
  · have hasOnly := grammar.access callee (Cursor.mem_cursors_iff.mpr calleeLies) isMember
    rcases hasOnly.aside_or_field? childMem with isAside | ⟨field, fieldMem, found⟩
    · exact .of_below_aside matchingAbove isAside childMem childBelow
    · simp only [List.mem_cons, List.not_mem_nil, or_false] at fieldMem
      rcases fieldMem with rfl | rfl
      · obtain rfl := Option.some.inj (objectFound.symm.trans found)
        exact .of_below_copied nodeLies placed (copies _ (by simp)) childBelow
      · obtain rfl := Option.some.inj (methodFound.symm.trans found)
        exact .lost (by simp) childBelow

include isArgument

omit lies grammar in
theorem HasParts.fate_below_list (below : parts.list ∈ node.selfAndAncestors) :
    Fate source parts pieces node := by
  have matchingAbove := hasParts.matching_above (Cursor.mem_children_of_field? hasParts.listFound)
  obtain ⟨further, mainEq⟩ := List.head?_eq_some_iff.mp isArgument
  have argumentIn : argument ∈ parts.list.mainChildren := by simp [mainEq]
  rcases nodeLies.eq_or_below_child below with rfl | ⟨child, childMem, childBelow⟩
  · exact .enclosing (by simp [isArgument])
      (Cursor.mem_ancestors_of_mem_children (Cursor.mem_mainChildren_iff.mp argumentIn).1)
  · cases isAside : child.kind.isAside with
    | true => exact .of_below_aside matchingAbove isAside childMem childBelow
    | false =>
        have childIn := Cursor.mem_mainChildren_iff.mpr ⟨childMem, isAside⟩
        rw [mainEq] at childIn
        rcases List.mem_cons.mp childIn with rfl | isFurther
        · exact .of_below_copied nodeLies placed (copies _ (by simp)) childBelow
        · exact .lost (by simp [Parts.further, mainEq, isFurther]) childBelow

/-- What becomes of the nodes of the argument that holds the match. -/
theorem HasParts.fate_below_matching (below : parts.matching ∈ node.selfAndAncestors) :
    Fate source parts pieces node := by
  have matchingLies := hasParts.liesIn_replaced lies hasParts.matching_mem
  have objectBelow := hasParts.call_mem_ancestors
  rcases nodeLies.below_parentheses grammar matchingLies hasParts.leads below with
    around | beside | inside
  · exact .enclosing (by simp) (Cursor.mem_ancestors_of_mem_ancestors
      (List.mem_cons_of_mem parts.object objectBelow) around)
  · exact .beside beside
  · rcases nodeLies.eq_or_below_child inside with rfl | ⟨child, childMem, childBelow⟩
    · exact .enclosing (by simp) objectBelow
    · have hasOnly := grammar.call _ (Cursor.mem_cursors_iff.mpr (hasParts.liesIn_call lies))
        hasParts.isCall
      rcases hasOnly.aside_or_field? childMem with isAside | ⟨field, fieldMem, found⟩
      · exact .of_below_aside hasParts.matching_above_call isAside childMem childBelow
      · simp only [List.mem_cons, List.not_mem_nil, or_false] at fieldMem
        rcases fieldMem with rfl | rfl
        · exact hasParts.fate_below_callee lies placed grammar copies nodeLies found childBelow
        · obtain rfl := Option.some.inj (hasParts.listFound.symm.trans found)
          exact hasParts.fate_below_list placed isArgument copies nodeLies childBelow

/-- What becomes of every node, if what is apart from the replaced parts is copied. -/
theorem HasParts.fate
    (untouched : ∀ node, Cursor.LiesIn tree node →
      (∀ target ∈ parts.name :: parts.replaced, node.span.Apart target.span) →
      Piece.Copies source pieces node.span) :
    Fate source parts pieces node := by
  -- A node that meets a replaced part is around it or inside of it.
  by_cases allApart : ∀ target ∈ parts.name :: parts.replaced, node.span.Apart target.span
  · exact .copied (untouched node nodeLies allApart)
  · push Not at allApart
    obtain ⟨target, targetMem, meets⟩ := allApart
    rcases List.mem_cons.mp targetMem with rfl | replacedMem
    · rcases nodeLies.above_or_apart (hasParts.liesIn_name lies) placed with around | inside | apart
      · exact .enclosing (by simp) around
      · exact .lost (by simp) inside
      · exact absurd apart meets
    · have targetLies := hasParts.liesIn_replaced lies replacedMem
      rcases nodeLies.above_or_apart targetLies placed with around | inside | apart
      · rw [hasParts.ancestors_replaced replacedMem] at around
        have matchingAbove : parts.matching ∈ parts.object.selfAndAncestors :=
          Cursor.mem_selfAndAncestors_trans
            (List.mem_cons_of_mem parts.object hasParts.call_mem_ancestors)
            hasParts.matching_above_call
        exact .enclosing (by simp) (Cursor.mem_ancestors_of_mem_ancestors matchingAbove around)
      · rcases List.mem_cons.mp (hasParts.replaced.mem_iff.mp replacedMem) with rfl | isOutcome
        · exact hasParts.fate_below_matching lies placed grammar isArgument copies nodeLies inside
        · exact .lost (by simp [isOutcome]) inside
      · exact absurd apart meets

end Below

end Fates

/-- The text of a node is copied to the pieces, character by character. -/
structure IsKept (source : Source) (pieces : List Piece) (part : Cursor) : Prop where
  copies : Piece.Copies source pieces part.span
  isInfix : (part.text source).toList <:+: Piece.assemble source pieces

/-- The pieces keep the object of the method and the arguments of the assertion that are not
replaced; the first argument of the method, unless an aside comes in front of it; and then,
where the tree follows the grammar, whatever is not one of the parts that are lost. -/
structure Keeps (source : Source) (tree : Node) (parts : Parts) (pieces : List Piece) :
    Prop where
  object : IsKept source pieces parts.object
  others : ∀ other ∈ parts.others, IsKept source pieces other
  argument : ¬ parts.list.StartsWithAside →
    ∃ argument, parts.argument? = some argument ∧ IsKept source pieces argument
  fate : ¬ parts.list.StartsWithAside → tree.FollowsGrammar →
    ∀ node ∈ tree.cursors, Fate source parts pieces node

theorem isKept_of_copies {source : Source} {tree : Node} {pieces : List Piece} {part : Cursor}
    (placed : tree.WellPlaced source) (lies : Cursor.LiesIn tree part)
    (copies : Piece.Copies source pieces part.span) : IsKept source pieces part where
  copies := copies
  isInfix := by
    rw [Cursor.text, Source.text, String.toList_ofList]
    exact copies.isInfix (lies.isValid placed)

/-- What a fix keeps. -/
theorem Rewrites.exists_keeps {source : Source} {tree : Node} {call : Cursor} {edits : List Edit}
    {fix : Fix} (rewrites : Rewrites source call edits) (wellFormed : tree.WellFormed source)
    (inTree : call ∈ tree.cursors) (isCall : call.kind = .callExpression)
    (merged : Fix.ofEdits source edits = .ok fix) :
    ∃ parts pieces, HasParts source call parts ∧
      Fix.applyAll source [fix] = Piece.assemble source pieces ∧
      Keeps source tree parts pieces := by
  have lies := Cursor.mem_cursors_iff.mp inTree
  have placed := wellFormed.placed
  obtain ⟨chained, inside⟩ := rewrites.chained wellFormed inTree isCall
  obtain ⟨parts, made, argument, hasParts, rfl, spansEq, isFirst, moved⟩ := rewrites.exists_parts
  have chainedFromStart := chained.weaken (Nat.zero_le _)
  have valid : ∀ edit ∈ made, source.isValid edit.span = true :=
    fun edit member => (inside (edit.asEdit source) (List.mem_map_of_mem member)).1
  have objectLies := hasParts.liesIn_object lies
  have argumentLies := hasParts.liesIn_read lies isFirst
  have copies : ∀ part ∈ [parts.object, argument],
      Piece.Copies source (PieceEdit.piecesFrom source 0 made) part.span := by
    intro part member
    obtain ⟨edit, editMem, copied⟩ := moved part member
    have partLies : Cursor.LiesIn tree part := by
      simp only [List.mem_cons, List.not_mem_nil, or_false] at member
      rcases member with rfl | rfl
      · exact objectLies
      · exact argumentLies
    exact PieceEdit.copies_of_mem editMem copied (partLies.isValid placed)
  -- The ranges of the edits are those of the name and of the replaced arguments.
  have untouched : ∀ node, Cursor.LiesIn tree node →
      (∀ target ∈ parts.name :: parts.replaced, node.span.Apart target.span) →
      Piece.Copies source (PieceEdit.piecesFrom source 0 made) node.span := by
    intro node nodeLies apart
    refine PieceEdit.copies_of_apart source.isBoundary_zero chainedFromStart valid
      (nodeLies.isValid placed) (Nat.zero_le _) ?_
    intro edit editMem
    have spanMem : edit.span ∈ (parts.name :: parts.replaced).map Cursor.span := by
      rw [← spansEq]
      exact List.mem_map_of_mem editMem
    obtain ⟨target, targetMem, targetEq⟩ := List.mem_map.mp spanMem
    exact targetEq ▸ apart target targetMem
  refine ⟨parts, PieceEdit.piecesFrom source 0 made, hasParts,
    PieceEdit.applyAll_eq_assemble merged chainedFromStart, ?_⟩
  exact
    { object := isKept_of_copies placed objectLies (copies _ (by simp))
      others := fun other member =>
        isKept_of_copies placed (hasParts.liesIn_other lies member)
          (untouched other (hasParts.liesIn_other lies member) fun target targetMem =>
            hasParts.apart_others wellFormed inTree isCall member targetMem)
      argument := fun clear => ⟨argument, Parts.argument?_eq isFirst clear,
        isKept_of_copies placed argumentLies (copies _ (by simp))⟩
      fate := fun clear grammar node nodeMem =>
        hasParts.fate lies placed grammar (Parts.argument?_eq isFirst clear) copies
          (Cursor.mem_cursors_iff.mp nodeMem) untouched }

/-- The fix of each violation copies the object of the method and the arguments of the
assertion other than those replaced, character by character, and the first argument of the
method too, unless a comment in the old style of web pages comes in front of it.  Then, in
a tree that follows the grammar, a node that is not copied is around the parts that are
renamed or moved, or in one of those that are lost: the name of the assertion, the name of
the method, the further arguments of the method and the literal of an assertion on equality;
or it is a sign or a comment beside them. -/
theorem fix_keeps_all_but_lost_parts {parse : Source → Node} {reader : QueryReader}
    {read : ReadQuery} {plugin : Plugin} {config : Config} {source : Source}
    (readsRule : ReadsRule reader read)
    (enabled : Linter.enabledRules plugin config = .ok [rule])
    (wellFormed : (parse source).WellFormed source) :
    ∃ outcome, Linter.run parse reader plugin config source = .ok outcome ∧
      ∀ violation ∈ outcome.violations,
        ∃ call ∈ (parse source).cursors, ∃ fix parts pieces,
          violation.span = call.span ∧ violation.fix = some fix ∧
            HasParts source call parts ∧
            Fix.applyAll source [fix] = Piece.assemble source pieces ∧
            Keeps source (parse source) parts pieces := by
  refine ⟨_, Linter.run_eq_ok enabled readsRule.compileAll_rule, ?_⟩
  intro violation member
  rw [Linter.violations_runListeners] at member
  obtain ⟨call, inTree, edits, fix, isCall, spanEq, fixEq, rewrites, isFix⟩ :=
    exists_isFixOf_of_mem_violations readsRule wellFormed member
  obtain ⟨parts, pieces, hasParts, resultEq, keeps⟩ :=
    rewrites.exists_keeps wellFormed inTree isCall isFix.merged
  exact ⟨call, inTree, fix, parts, pieces, spanEq, fixEq, hasParts, resultEq, keeps⟩

/-- The tree of the nested sample follows the grammar and has no comments, so the fix of each
of its violations keeps the first argument of the method, and every node of it has a fate. -/
theorem nested_fix_keeps_all_but_lost_parts :
    ∃ outcome,
      Linter.run nestedParse Query.reader assertionRules ⟨["prefer-t-regex"], false⟩
          nestedSource = .ok outcome ∧
        outcome.violations ≠ [] ∧
        ∀ violation ∈ outcome.violations,
          ∃ call ∈ (nestedParse nestedSource).cursors, ∃ fix parts pieces argument,
            violation.fix = some fix ∧ HasParts nestedSource call parts ∧
              Fix.applyAll nestedSource [fix] = Piece.assemble nestedSource pieces ∧
              parts.argument? = some argument ∧
              (argument.text nestedSource).toList <:+: Fix.applyAll nestedSource [fix] ∧
              ∀ node ∈ (nestedParse nestedSource).cursors,
                Fate nestedSource parts pieces node := by
  have enabled :
      Linter.enabledRules assertionRules ⟨["prefer-t-regex"], false⟩ = .ok [rule] := rfl
  have grammar : (nestedParse nestedSource).FollowsGrammar := by decide +kernel
  have plain : ∀ node ∈ (nestedParse nestedSource).cursors, node.kind.isAside = false := by
    decide +kernel
  have violationsFound : (Linter.lint nestedParse [compiledListener callQuery.asRead]
      nestedSource).violations.isEmpty = false := by
    decide +kernel
  obtain ⟨outcome, ran, kept⟩ :=
    fix_keeps_all_but_lost_parts readsRule_reader enabled wellFormed_nestedParse
  refine ⟨outcome, ran, ?_, ?_⟩
  · rw [Linter.run_eq_ok enabled readsRule_reader.compileAll_rule, Except.ok.injEq] at ran
    rw [← ran, Linter.violations_runListeners]
    simpa using violationsFound
  · intro violation member
    obtain ⟨call, inTree, fix, parts, pieces, -, fixEq, hasParts, resultEq, keeps⟩ :=
      kept violation member
    have clear : ¬ parts.list.StartsWithAside := by
      rintro ⟨first, firstFound, isAside⟩
      have firstLies := hasParts.liesIn_read (Cursor.mem_cursors_iff.mp inTree) firstFound
      simp [plain first (Cursor.mem_cursors_iff.mpr firstLies)] at isAside
    obtain ⟨argument, isArgument, isKept⟩ := keeps.argument clear
    exact ⟨call, inTree, fix, parts, pieces, argument, fixEq, hasParts, resultEq, isArgument,
      resultEq ▸ isKept.isInfix, keeps.fate clear grammar⟩

/-- The fix of the outer assertion of the nested sample drops the inner assertion, which is
a further argument of the method. -/
theorem nested_fix_drops_further_argument :
    ∃ outcome,
      Linter.run nestedParse Query.reader assertionRules ⟨["prefer-t-regex"], false⟩
          nestedSource = .ok outcome ∧
        ∃ violation ∈ outcome.violations, ∃ call ∈ (nestedParse nestedSource).cursors,
          ∃ fix parts, violation.span = call.span ∧ violation.fix = some fix ∧
            HasParts nestedSource call parts ∧
            ∃ argument ∈ parts.further,
              argument.text nestedSource = "t.false(/c/.test(u))" ∧
                ¬ (argument.text nestedSource).toList <:+: Fix.applyAll nestedSource [fix] := by
  have enabled :
      Linter.enabledRules assertionRules ⟨["prefer-t-regex"], false⟩ = .ok [rule] := rfl
  have found : ∃ violation ∈ (Linter.lint nestedParse [compiledListener callQuery.asRead]
      nestedSource).violations,
      violation.span = ⟨25, 65⟩ ∧ violation.fix = some ⟨⟨27, 64⟩, "regex(s, /b/"⟩ := by
    decide +kernel
  obtain ⟨violation, violationMem, violationSpan, violationFix⟩ := found
  obtain ⟨call, inTree, edits, fix, isCall, spanEq, fixEq, rewrites, isFix⟩ :=
    exists_isFixOf_of_mem_violations readsRule_reader wellFormed_nestedParse violationMem
  obtain ⟨parts, -, hasParts, -⟩ :=
    rewrites.exists_keeps wellFormed_nestedParse inTree isCall isFix.merged
  -- No parentheses stand around the match, so its call is the argument itself.
  have innerArguments : ∀ call ∈ (nestedParse nestedSource).cursors, call.span = ⟨25, 65⟩ →
      call.kind = .callExpression → ∀ list ∈ call.field? .arguments,
        ∀ matching ∈ list.mainChildren, matching.kind = .callExpression ∧
          ∀ inner ∈ matching.field? .arguments,
            inner.mainChildren.map Cursor.span = [⟨41, 42⟩, ⟨43, 63⟩] := by
    decide +kernel
  obtain ⟨list, listFound, -, mainEq⟩ := hasParts.arguments
  obtain ⟨matchingCall, spans⟩ := innerArguments call inTree (spanEq.symm.trans violationSpan)
    isCall list listFound parts.matching
    (mainEq ▸ List.mem_append_left _ hasParts.matching_mem)
  have sameCall : parts.matching = parts.call :=
    Cursor.eq_of_reaches_inParentheses? .refl hasParts.leads (by simp [matchingCall])
      (by simp [hasParts.isCall])
  have furtherSpans : parts.further.map Cursor.span = [⟨43, 63⟩] := by
    rw [Parts.further, List.map_tail, spans parts.list (sameCall ▸ hasParts.listFound)]
    rfl
  obtain ⟨argument, furtherEq, argumentSpan⟩ := List.map_eq_singleton_iff.mp furtherSpans
  have dropped : nestedSource.text ⟨43, 63⟩ = "t.false(/c/.test(u))" ∧
      ¬ (nestedSource.text ⟨43, 63⟩).toList <:+:
        Fix.applyAll nestedSource [⟨⟨27, 64⟩, "regex(s, /b/"⟩] := by
    decide +kernel
  refine ⟨_, Linter.run_eq_ok enabled readsRule_reader.compileAll_rule, violation, ?_, call, inTree,
    _, parts, spanEq, violationFix, hasParts, argument, by simp [furtherEq], ?_⟩
  · rw [Linter.violations_runListeners]
    exact violationMem
  · rw [Cursor.text, argumentSpan]
    exact dropped

end RegexAssertion

end AssertLint
