import AssertLint.Proofs.Fix.AtOnce
import AssertLint.Proofs.Text.Ranges

/-!
# What edits leave of a source

After edits have been made, a text consists of pieces that are copied from the
source and of pieces that are written anew.  The text of an edit may copy from the
source as well, and then the edit moves what it copies.
-/

namespace AssertLint

/-- A piece of a text: a range of the source, or a text of its own. -/
inductive Piece where
  | copied (range : Span)
  | written (text : String)
  deriving DecidableEq, Repr

namespace Piece

def characters (source : Source) : Piece → Source
  | copied range => source.slice range
  | written text => text.toList

/-- The text that consists of pieces. -/
def assemble (source : Source) (pieces : List Piece) : Source :=
  pieces.flatMap (characters source)

/-- One of the pieces copies a range of the source and maybe more around it. -/
def Copies (source : Source) (pieces : List Piece) (span : Span) : Prop :=
  ∃ range, copied range ∈ pieces ∧ source.isValid range = true ∧ span.Within range

variable {source : Source} {pieces : List Piece} {span : Span}

/-- What is copied stands in the text. -/
theorem Copies.isInfix (copies : Copies source pieces span) (valid : source.isValid span = true) :
    source.slice span <:+: assemble source pieces := by
  obtain ⟨range, member, rangeValid, inside⟩ := copies
  obtain ⟨front, back, rangeEq, -⟩ :=
    Source.slice_eq_append_of_within valid rangeValid inside.1 inside.2
  obtain ⟨before, after, rfl⟩ := List.append_of_mem member
  refine ⟨assemble source before ++ front, back ++ assemble source after, ?_⟩
  simp only [assemble, List.flatMap_append, List.flatMap_cons, characters, rangeEq,
    List.append_assoc]

theorem Copies.of_within {outer : Span} (copies : Copies source pieces outer)
    (inside : span.Within outer) : Copies source pieces span := by
  obtain ⟨range, member, valid, around⟩ := copies
  exact ⟨range, member, valid, inside.trans around⟩

end Piece

/-- A replacement of a range of the source by pieces. -/
structure PieceEdit where
  span : Span
  pieces : List Piece
  deriving DecidableEq, Repr

namespace PieceEdit

/-- The edit with its pieces put together. -/
def asEdit (source : Source) (edit : PieceEdit) : Edit :=
  ⟨edit.span, String.ofList (Piece.assemble source edit.pieces)⟩

/-- The pieces of the text from an offset on after edits. -/
def piecesFrom (source : Source) : Nat → List PieceEdit → List Piece
  | offset, [] => [.copied ⟨offset, source.byteLength⟩]
  | offset, edit :: rest =>
      .copied ⟨offset, edit.span.start⟩ :: (edit.pieces ++ piecesFrom source edit.span.stop rest)

section Pieces

variable {source : Source} {offset : Nat} {edits : List PieceEdit}

theorem assemble_piecesFrom (boundary : source.isBoundary offset = true)
    (valid : ∀ edit ∈ edits, source.isValid edit.span = true) :
    Piece.assemble source (piecesFrom source offset edits) =
      Fix.spliceFrom source offset ((edits.map (asEdit source)).map Edit.asFix) := by
  induction edits generalizing offset with
  | nil =>
      rw [piecesFrom, Piece.assemble, List.flatMap_singleton, Piece.characters,
        Source.slice_toEnd boundary]
      rfl
  | cons edit rest ih =>
      have later := ih (Source.isBoundary_stop_of_isValid (valid edit List.mem_cons_self))
        fun other member => valid other (List.mem_cons_of_mem edit member)
      simp only [Piece.assemble] at later
      simp only [piecesFrom, Piece.assemble, List.flatMap_cons, List.flatMap_append, later,
        Piece.characters, List.map_cons, Fix.spliceFrom, asEdit, Edit.asFix, String.toList_ofList,
        List.append_assoc]

/-- A fix that merges edits leaves their pieces. -/
theorem applyAll_eq_assemble {fix : Fix}
    (merged : Fix.ofEdits source (edits.map (asEdit source)) = .ok fix)
    (chained : Edit.Chained 0 (edits.map (asEdit source))) :
    Fix.applyAll source [fix] = Piece.assemble source (piecesFrom source 0 edits) := by
  obtain ⟨-, valid, -⟩ := Fix.of_ofEdits_eq_ok merged
  have spansValid : ∀ edit ∈ edits, source.isValid edit.span = true :=
    fun edit member => valid (edit.asEdit source) (List.mem_map_of_mem member)
  obtain ⟨first, rest, ordered, -, -, replaced⟩ := Fix.exists_inOrder_of_ofEdits_eq_ok merged
  rw [Edit.inOrder_eq_self_of_chained chained valid] at ordered
  rw [← ordered] at replaced
  have spliced := Edit.replacedFrom_spliceFrom (List.nil_append source).symm chained valid
  rw [assemble_piecesFrom source.isBoundary_zero spansValid]
  exact replaced.unique spliced

/-- What an edit copies is copied. -/
theorem copies_of_mem {range : Span} {edit : PieceEdit} (member : edit ∈ edits)
    (copied : .copied range ∈ edit.pieces) (valid : source.isValid range = true) :
    Piece.Copies source (piecesFrom source offset edits) range := by
  refine ⟨range, ?_, valid, Span.Within.refl range⟩
  induction edits generalizing offset with
  | nil => simp at member
  | cons first rest ih =>
      rw [piecesFrom, List.mem_cons, List.mem_append]
      rcases List.mem_cons.mp member with rfl | later
      · exact Or.inr (Or.inl copied)
      · exact Or.inr (Or.inr (ih later))

/-- What no edit touches is copied. -/
theorem copies_of_apart {span : Span} (boundary : source.isBoundary offset = true)
    (chained : Edit.Chained offset (edits.map (asEdit source)))
    (valid : ∀ edit ∈ edits, source.isValid edit.span = true)
    (spanValid : source.isValid span = true) (behind : offset ≤ span.start)
    (apart : ∀ edit ∈ edits, span.Apart edit.span) :
    Piece.Copies source (piecesFrom source offset edits) span := by
  induction edits generalizing offset with
  | nil =>
      refine ⟨_, List.mem_singleton_self _, Source.isValid_toEnd boundary, behind, ?_⟩
      exact Source.stop_le_byteLength_of_isValid spanValid
  | cons edit rest ih =>
      have editValid := valid edit List.mem_cons_self
      rcases apart edit List.mem_cons_self with before | after
      · exact ⟨_, List.mem_cons_self, Source.isValid_between boundary editValid chained.1, behind,
          before⟩
      · obtain ⟨range, member, rangeValid, inside⟩ :=
          ih (Source.isBoundary_stop_of_isValid editValid) chained.2
            (fun other otherMem => valid other (List.mem_cons_of_mem edit otherMem)) after
            (fun other otherMem => apart other (List.mem_cons_of_mem edit otherMem))
        exact ⟨range, List.mem_cons_of_mem _ (List.mem_append_right _ member), rangeValid, inside⟩

end Pieces

end PieceEdit

end AssertLint
