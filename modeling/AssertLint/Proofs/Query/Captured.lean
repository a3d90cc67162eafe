import AssertLint.Proofs.Tree.Cursor
import AssertLint.Query.Engine

/-!
# Captured nodes

Whatever a query captures in a tree is a node of the tree.  Of the reader of this
library this is proved: a description is met by a node together with nodes below it.
Of other readers it is a premise.
-/

namespace AssertLint

namespace Query

theorem mem_of_mem_withFollowing {α : Type} {entries following : List α} {entry : α}
    (member : (entry, following) ∈ withFollowing entries) :
    entry ∈ entries ∧ following ⊆ entries := by
  induction entries with
  | nil => simp [withFollowing] at member
  | cons first rest ih =>
      rcases List.mem_cons.mp member with isFirst | later
      · obtain ⟨rfl, rfl⟩ := Prod.mk.inj isFirst
        exact ⟨List.mem_cons_self, List.subset_cons_self entry following⟩
      · obtain ⟨inRest, below⟩ := ih later
        exact ⟨List.mem_cons_of_mem first inRest,
          fun other otherMem => List.mem_cons_of_mem first (below otherMem)⟩

/-- The captures of a way to meet a description are in a tree. -/
def InTree (tree : Node) (way : Captures) : Prop :=
  ∀ entry ∈ way, Cursor.LiesIn tree entry.2

theorem InTree.append {tree : Node} {first second : Captures} (firstIn : InTree tree first)
    (secondIn : InTree tree second) : InTree tree (first ++ second) := by
  intro entry member
  rcases List.mem_append.mp member with inFirst | inSecond
  · exact firstIn entry inFirst
  · exact secondIn entry inSecond

theorem inTree_map {tree : Node} {cursor : Cursor} (lies : Cursor.LiesIn tree cursor)
    (names : List String) : InTree tree (names.map (·, cursor)) := by
  intro entry member
  obtain ⟨name, -, rfl⟩ := List.mem_map.mp member
  exact lies

namespace Pattern

variable {tree : Node}

mutual

private theorem inTree_of_mem_waysAt :
    (pattern : Pattern) → {cursor : Cursor} → {way : Captures} → Cursor.LiesIn tree cursor →
      way ∈ waysAt pattern cursor → InTree tree way
  | node kind field children captures offset, cursor, way, lies, isWay => by
      rw [waysAt] at isWay
      split at isWay
      · obtain ⟨below, belowMem, rfl⟩ := List.mem_map.mp isWay
        have candidatesIn : ∀ child ∈ cursor.namedChildren, Cursor.LiesIn tree child :=
          fun child member => lies.of_mem_children (List.mem_filter.mp member).1
        exact (inTree_map lies captures).append
          (inTree_of_mem_waysAmong children candidatesIn belowMem)
      · simp at isWay
  | oneOf field alternatives captures offset, cursor, way, lies, isWay => by
      rw [waysAt] at isWay
      split at isWay
      · obtain ⟨one, oneMem, rfl⟩ := List.mem_map.mp isWay
        exact (inTree_map lies captures).append (inTree_of_mem_waysOfSome alternatives lies oneMem)
      · simp at isWay

private theorem inTree_of_mem_waysAmong :
    (patterns : List Pattern) → {candidates : List Cursor} → {way : Captures} →
      (∀ candidate ∈ candidates, Cursor.LiesIn tree candidate) →
      way ∈ waysAmong patterns candidates → InTree tree way
  | [], candidates, way, candidatesIn, isWay => by
      rw [waysAmong, List.mem_singleton] at isWay
      subst isWay
      exact fun entry member => absurd member List.not_mem_nil
  | pattern :: rest, candidates, way, candidatesIn, isWay => by
      rw [waysAmong, List.mem_flatMap] at isWay
      obtain ⟨⟨candidate, following⟩, chosen, isWay⟩ := isWay
      obtain ⟨first, firstMem, isWay⟩ := List.mem_flatMap.mp isWay
      obtain ⟨others, othersMem, rfl⟩ := List.mem_map.mp isWay
      obtain ⟨candidateMem, followingSub⟩ := mem_of_mem_withFollowing chosen
      exact (inTree_of_mem_waysAt pattern (candidatesIn candidate candidateMem) firstMem).append
        (inTree_of_mem_waysAmong rest
          (fun other member => candidatesIn other (followingSub member)) othersMem)

private theorem inTree_of_mem_waysOfSome :
    (patterns : List Pattern) → {cursor : Cursor} → {way : Captures} →
      Cursor.LiesIn tree cursor → way ∈ waysOfSome patterns cursor → InTree tree way
  | [], cursor, way, lies, isWay => by simp [waysOfSome] at isWay
  | pattern :: rest, cursor, way, lies, isWay => by
      rw [waysOfSome, List.mem_append] at isWay
      rcases isWay with isFirst | isLater
      · exact inTree_of_mem_waysAt pattern lies isFirst
      · exact inTree_of_mem_waysOfSome rest lies isLater

end

end Pattern

/-- A query captures nodes of the tree that it is asked about. -/
theorem liesIn_of_mem_capturedNodes {query : Query} {source : Source} {tree : Node}
    {name : String} {node : Cursor}
    (captured : node ∈ query.capturedNodes source tree name) : Cursor.LiesIn tree node := by
  obtain ⟨cursor, inTree, captured⟩ := List.mem_flatMap.mp captured
  obtain ⟨⟨pattern?, conditions⟩, -, captured⟩ := List.mem_flatMap.mp captured
  cases pattern? with
  | none => simp at captured
  | some pattern =>
      obtain ⟨way, wayMem, captured⟩ := List.mem_flatMap.mp captured
      obtain ⟨entry, entryMem, rfl⟩ := List.mem_map.mp captured
      have lies := Cursor.mem_cursors_iff.mp inTree
      exact Pattern.inTree_of_mem_waysAt pattern lies (List.mem_filter.mp wayMem).1 entry
        (List.mem_filter.mp entryMem).1

end Query

/-- What the queries of a reader capture lies in the tree that they are asked about. -/
def QueryReader.StaysInTree (reader : QueryReader) : Prop :=
  ∀ text query, reader text = .ok query → ∀ source tree name,
    ∀ node ∈ query.capturedNodes source tree name, Cursor.LiesIn tree node

theorem Query.staysInTree_reader : reader.StaysInTree := by
  intro text read isRead source tree name node captured
  rw [reader] at isRead
  cases compiled : compile text with
  | error fault => simp [compiled, Except.map] at isRead
  | ok query =>
      rw [compiled] at isRead
      obtain rfl : query.asRead = read := Except.ok.inj isRead
      exact liesIn_of_mem_capturedNodes captured

end AssertLint
