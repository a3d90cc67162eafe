import AssertLint.Tree.Node

/-!
# Places in a tree

The cursors of a tree are those that are reached from its root by going down to
children.  Going down makes an address longer by the index of the child, so a
cursor of a tree is known by its address, and a node is never at the address of
a node above it.
-/

namespace AssertLint

namespace Cursor

theorem child?_eq_some_iff {cursor child : Cursor} {index : Nat} :
    cursor.child? index = some child ↔
      cursor.node.children[index]? = some child.node ∧
        child.ascents = ⟨cursor.node, index⟩ :: cursor.ascents := by
  rw [child?, Option.map_eq_some_iff]
  constructor
  · rintro ⟨node, found, rfl⟩
    exact ⟨found, rfl⟩
  · rintro ⟨found, ascentsEq⟩
    exact ⟨child.node, found, by rw [← ascentsEq]⟩

theorem child?_of_drop_eq {parent node : Node} {ascents : List Ascent} {index : Nat}
    {rest : List Node} (dropped : parent.children.drop index = node :: rest) :
    (⟨parent, ascents⟩ : Cursor).child? index = some ⟨node, ⟨parent, index⟩ :: ascents⟩ := by
  have headFound : parent.children[index]? = some node := by
    rw [← List.head?_drop, dropped]
    rfl
  exact child?_eq_some_iff.mpr ⟨headFound, rfl⟩

theorem drop_succ_of_drop_eq {parent node : Node} {index : Nat} {rest : List Node}
    (dropped : parent.children.drop index = node :: rest) :
    parent.children.drop (index + 1) = rest := by
  rw [← List.drop_drop, dropped]
  rfl

theorem mem_children_iff {cursor child : Cursor} :
    child ∈ cursor.children ↔ ∃ index, cursor.child? index = some child := by
  rw [children, List.mem_mapIdx]
  constructor
  · rintro ⟨index, bound, rfl⟩
    exact ⟨index, child?_eq_some_iff.mpr ⟨List.getElem?_eq_getElem bound, rfl⟩⟩
  · rintro ⟨index, found⟩
    obtain ⟨nodeFound, ascentsEq⟩ := child?_eq_some_iff.mp found
    obtain ⟨bound, nodeEq⟩ := List.getElem?_eq_some_iff.mp nodeFound
    exact ⟨index, bound, by rw [nodeEq, ← ascentsEq]⟩

theorem mem_children_of_mem_contentChildren {cursor child : Cursor}
    (member : child ∈ cursor.contentChildren) : child ∈ cursor.children :=
  (List.mem_filter.mp (List.mem_filter.mp member).1).1

theorem mem_children_of_field? {cursor child : Cursor} {field : Field}
    (found : cursor.field? field = some child) : child ∈ cursor.children :=
  List.mem_of_find?_eq_some found

theorem mem_children_of_firstContent? {cursor child : Cursor}
    (found : cursor.firstContent? = some child) : child ∈ cursor.children :=
  mem_children_of_mem_contentChildren (List.mem_of_mem_head? found)

/-- The child in a field says that it stands there. -/
theorem field_eq_of_field? {cursor child : Cursor} {field : Field}
    (found : cursor.field? field = some child) : child.node.field = some field := by
  simpa using List.find?_some found

/-- The children in a field. -/
def childrenIn (cursor : Cursor) (field : Field) : List Cursor :=
  cursor.children.filter (·.node.field = some field)

theorem mem_childrenIn_iff {cursor child : Cursor} {field : Field} :
    child ∈ cursor.childrenIn field ↔
      child ∈ cursor.children ∧ child.node.field = some field := by
  simp [childrenIn]

theorem field?_eq_head?_childrenIn (cursor : Cursor) (field : Field) :
    cursor.field? field = (cursor.childrenIn field).head? :=
  List.head?_filter.symm

/-- A node has at most one child in a field. -/
def HasAtMostOne (cursor : Cursor) (field : Field) : Prop :=
  (cursor.childrenIn field).length ≤ 1

instance (cursor : Cursor) (field : Field) : Decidable (cursor.HasAtMostOne field) :=
  inferInstanceAs (Decidable (_ ≤ 1))

theorem HasAtMostOne.field?_eq {cursor child : Cursor} {field : Field}
    (one : cursor.HasAtMostOne field) (member : child ∈ cursor.childrenIn field) :
    cursor.field? field = some child := by
  obtain ⟨only, onlyEq⟩ := List.length_eq_one_iff.mp
    (Nat.le_antisymm one (List.length_pos_of_mem member))
  rw [onlyEq, List.mem_singleton] at member
  rw [field?_eq_head?_childrenIn, onlyEq, member]
  rfl

theorem ancestors_of_mem_children {cursor child : Cursor} (member : child ∈ cursor.children) :
    child.ancestors = cursor :: cursor.ancestors := by
  obtain ⟨index, found⟩ := mem_children_iff.mp member
  rw [ancestors, (child?_eq_some_iff.mp found).2]
  rfl

theorem address_of_child? {cursor child : Cursor} {index : Nat}
    (found : cursor.child? index = some child) : child.address = index :: cursor.address := by
  rw [address, (child?_eq_some_iff.mp found).2]
  rfl

/-- A cursor is in a tree if it is the root or a child of a cursor in the tree. -/
inductive LiesIn (tree : Node) : Cursor → Prop where
  | root : LiesIn tree (Cursor.root tree)
  | child {cursor child : Cursor} {index : Nat} (above : LiesIn tree cursor)
      (found : cursor.child? index = some child) : LiesIn tree child

theorem LiesIn.of_mem_children {tree : Node} {cursor child : Cursor}
    (above : LiesIn tree cursor) (member : child ∈ cursor.children) : LiesIn tree child := by
  obtain ⟨index, found⟩ := mem_children_iff.mp member
  exact LiesIn.child above found

theorem LiesIn.of_field? {tree : Node} {cursor child : Cursor} {field : Field}
    (lies : LiesIn tree cursor) (found : cursor.field? field = some child) : LiesIn tree child :=
  lies.of_mem_children (mem_children_of_field? found)

/-- Two cursors of a tree with one address are the same. -/
theorem LiesIn.eq_of_address_eq {tree : Node} {first second : Cursor}
    (firstIn : LiesIn tree first) (secondIn : LiesIn tree second)
    (addressEq : first.address = second.address) : first = second := by
  induction firstIn generalizing second with
  | root =>
      cases secondIn with
      | root => rfl
      | child above found =>
          rw [address_of_child? found] at addressEq
          simp [address, Cursor.root] at addressEq
  | child above found ih =>
      rw [address_of_child? found] at addressEq
      cases secondIn with
      | root => simp [address, Cursor.root] at addressEq
      | child above' found' =>
          rw [address_of_child? found'] at addressEq
          obtain ⟨indexEq, addressEq⟩ := List.cons.inj addressEq
          rw [ih above' addressEq, indexEq, found'] at found
          exact (Option.some.inj found).symm

/-- The address of an ancestor is a shorter end of the address. -/
theorem exists_address_eq_of_mem_ancestorsAlong {ascents : List Ascent} {ancestor : Cursor}
    (member : ancestor ∈ ancestorsAlong ascents) :
    ∃ front index, ascents.map Ascent.index = front ++ index :: ancestor.address := by
  induction ascents with
  | nil => simp [ancestorsAlong] at member
  | cons ascent rest ih =>
      rw [ancestorsAlong, List.mem_cons] at member
      rcases member with rfl | higher
      · exact ⟨[], ascent.index, rfl⟩
      · obtain ⟨front, index, addressEq⟩ := ih higher
        exact ⟨ascent.index :: front, index, by rw [List.map_cons, addressEq]; rfl⟩

theorem exists_address_eq_of_mem_ancestors {cursor ancestor : Cursor}
    (member : ancestor ∈ cursor.ancestors) :
    ∃ front index, cursor.address = front ++ index :: ancestor.address :=
  exists_address_eq_of_mem_ancestorsAlong member

/-- No ancestor has the address of the node. -/
theorem address_ne_of_mem_ancestors {cursor ancestor : Cursor}
    (member : ancestor ∈ cursor.ancestors) : ancestor.address ≠ cursor.address := by
  obtain ⟨front, index, addressEq⟩ := exists_address_eq_of_mem_ancestors member
  intro same
  have lengthEq := congrArg List.length addressEq
  rw [← same] at lengthEq
  simp only [List.length_append, List.length_cons] at lengthEq
  omega

private theorem ancestorsAlong_eq_append {ascents : List Ascent} {front rest : List Cursor}
    {ancestor : Cursor} (split : ancestorsAlong ascents = front ++ ancestor :: rest) :
    rest = ancestor.ancestors := by
  induction ascents generalizing front with
  | nil => simp [ancestorsAlong] at split
  | cons ascent higher ih =>
      rw [ancestorsAlong] at split
      cases front with
      | nil =>
          obtain ⟨rfl, rfl⟩ := List.cons.inj split
          rfl
      | cons nearest front => exact ih (List.cons.inj split).2

theorem mem_ancestors_of_mem_ancestors {cursor middle top : Cursor}
    (below : middle ∈ cursor.selfAndAncestors) (above : top ∈ middle.ancestors) :
    top ∈ cursor.ancestors := by
  rcases List.mem_cons.mp below with rfl | middleMem
  · exact above
  · obtain ⟨front, rest, split⟩ := List.append_of_mem middleMem
    rw [split, ancestorsAlong_eq_append split]
    exact List.mem_append_right front (List.mem_cons_of_mem middle above)

theorem mem_selfAndAncestors_trans {cursor middle top : Cursor}
    (below : middle ∈ cursor.selfAndAncestors) (above : top ∈ middle.selfAndAncestors) :
    top ∈ cursor.selfAndAncestors := by
  rcases List.mem_cons.mp above with rfl | higher
  · exact below
  · exact List.mem_cons_of_mem cursor (mem_ancestors_of_mem_ancestors below higher)

theorem mem_ancestors_of_mem_children {cursor child : Cursor} (member : child ∈ cursor.children) :
    cursor ∈ child.ancestors := by
  rw [ancestors_of_mem_children member]
  exact List.mem_cons_self

theorem mem_selfAndAncestors_of_child {node child name : Cursor} (isChild : child ∈ node.children)
    (below : child ∈ name.selfAndAncestors) : node ∈ name.selfAndAncestors :=
  List.mem_cons_of_mem name
    (mem_ancestors_of_mem_ancestors below (mem_ancestors_of_mem_children isChild))

theorem exists_address_eq_of_mem_selfAndAncestors {cursor ancestor : Cursor}
    (member : ancestor ∈ cursor.selfAndAncestors) :
    ∃ front, cursor.address = front ++ ancestor.address := by
  rcases List.mem_cons.mp member with rfl | higher
  · exact ⟨[], rfl⟩
  · obtain ⟨front, index, addressEq⟩ := exists_address_eq_of_mem_ancestors higher
    exact ⟨front ++ [index], by rw [addressEq, List.append_assoc]; rfl⟩

/-- A place lies below at most one child of a node. -/
theorem child_eq_of_mem_selfAndAncestors {node child child' name name' : Cursor}
    (isChild : child ∈ node.children) (isChild' : child' ∈ node.children)
    (below : child ∈ name.selfAndAncestors) (below' : child' ∈ name'.selfAndAncestors)
    (same : name.address = name'.address) : child = child' := by
  obtain ⟨front, addressEq⟩ := exists_address_eq_of_mem_selfAndAncestors below
  obtain ⟨front', addressEq'⟩ := exists_address_eq_of_mem_selfAndAncestors below'
  obtain ⟨index, found⟩ := mem_children_iff.mp isChild
  obtain ⟨index', found'⟩ := mem_children_iff.mp isChild'
  rw [address_of_child? found] at addressEq
  rw [address_of_child? found'] at addressEq'
  rw [addressEq, addressEq'] at same
  obtain ⟨rfl, -⟩ := List.cons.inj (List.append_inj' same rfl).2
  exact Option.some.inj (found.symm.trans found')

theorem nodup_address_children (node : Cursor) : (node.children.map address).Nodup := by
  rw [List.Nodup, List.pairwise_map, List.pairwise_iff_getElem]
  intro first second firstBound secondBound before same
  simp only [children, List.getElem_mapIdx, address, List.map_cons, List.cons.injEq] at same
  omega

/-- Above the nearest ancestor of some sort stand its own ancestors. -/
theorem exists_ancestors_eq_of_find? {cursor ancestor : Cursor} {sort : Cursor → Bool}
    (found : cursor.ancestors.find? sort = some ancestor) :
    ∃ front, cursor.ancestors = front ++ ancestor.selfAndAncestors ∧
      ∀ other ∈ front, sort other = false := by
  obtain ⟨-, front, rest, split, before⟩ := List.find?_eq_some_iff_append.mp found
  refine ⟨front, ?_, fun other member => by simpa using before other member⟩
  rw [split, ancestorsAlong_eq_append split, selfAndAncestors]

/-- The root is above every other node of its tree. -/
theorem LiesIn.eq_root_or_mem_ancestors {tree : Node} {cursor : Cursor}
    (lies : LiesIn tree cursor) :
    cursor = Cursor.root tree ∨ Cursor.root tree ∈ cursor.ancestors := by
  induction lies with
  | root => exact Or.inl rfl
  | child above found ih =>
      right
      rw [ancestors_of_mem_children (mem_children_iff.mpr ⟨_, found⟩), List.mem_cons]
      rcases ih with rfl | higher
      · exact Or.inl rfl
      · exact Or.inr higher

theorem LiesIn.of_mem_ancestors {tree : Node} {cursor ancestor : Cursor}
    (lies : LiesIn tree cursor) (member : ancestor ∈ cursor.ancestors) :
    LiesIn tree ancestor := by
  induction lies with
  | root => simp [ancestors, Cursor.root, ancestorsAlong] at member
  | child above found ih =>
      rw [ancestors_of_mem_children (mem_children_iff.mpr ⟨_, found⟩), List.mem_cons] at member
      rcases member with rfl | higher
      · exact above
      · exact ih higher

section Preorder

variable {motive : Cursor → Prop}

mutual

/-- What holds of a node and passes on to children holds of everything below the node. -/
private theorem of_mem_preorderOf {ascents : List Ascent} {cursor : Cursor}
    (down : ∀ upper lower index, upper.child? index = some lower → motive upper →
      motive lower) :
    (node : Node) → motive ⟨node, ascents⟩ → cursor ∈ preorderOf ascents node →
      motive cursor
  | ⟨kind, field, span, children⟩, holds, member => by
      rw [preorderOf, List.mem_cons] at member
      rcases member with rfl | below
      · exact holds
      · exact of_mem_preorderOfList down children holds (by simp) below

private theorem of_mem_preorderOfList {parent : Node} {ascents : List Ascent}
    {index : Nat} {cursor : Cursor}
    (down : ∀ upper lower index, upper.child? index = some lower → motive upper →
      motive lower) :
    (nodes : List Node) → motive ⟨parent, ascents⟩ → parent.children.drop index = nodes →
      cursor ∈ preorderOfList parent ascents index nodes → motive cursor
  | [], _, _, member => by simp [preorderOfList] at member
  | node :: rest, holds, dropped, member => by
      rw [preorderOfList, List.mem_append] at member
      rcases member with inFirst | inRest
      · have holdsFirst := down _ _ index (child?_of_drop_eq dropped) holds
        exact of_mem_preorderOf down node holdsFirst inFirst
      · exact of_mem_preorderOfList down rest holds (drop_succ_of_drop_eq dropped) inRest

end

end Preorder

theorem self_mem_preorderOf (ascents : List Ascent) (node : Node) :
    ⟨node, ascents⟩ ∈ preorderOf ascents node := by
  cases node
  simp [preorderOf]

/-- The nodes below the child at an index are met when the children are gone
through from an earlier index. -/
private theorem mem_preorderOfList_of_getElem? {parent node : Node} {ascents : List Ascent}
    {start index : Nat} {nodes : List Node} {cursor : Cursor}
    (found : nodes[index]? = some node)
    (member : cursor ∈ preorderOf (⟨parent, start + index⟩ :: ascents) node) :
    cursor ∈ preorderOfList parent ascents start nodes := by
  induction nodes generalizing start index with
  | nil => simp at found
  | cons first rest ih =>
      rw [preorderOfList, List.mem_append]
      cases index with
      | zero =>
          obtain rfl : first = node := by simpa using found
          exact Or.inl member
      | succ index =>
          right
          apply ih (by simpa using found)
          rw [Nat.add_right_comm]
          exact member

mutual

private theorem child_mem_preorderOf {ascents : List Ascent} {cursor child : Cursor}
    {index : Nat} (found : cursor.child? index = some child) :
    (node : Node) → cursor ∈ preorderOf ascents node → child ∈ preorderOf ascents node
  | ⟨kind, field, span, children⟩, member => by
      rw [preorderOf, List.mem_cons] at member ⊢
      right
      rcases member with rfl | below
      · obtain ⟨nodeFound, ascentsEq⟩ := child?_eq_some_iff.mp found
        apply mem_preorderOfList_of_getElem? nodeFound
        rw [Nat.zero_add, ← ascentsEq]
        exact self_mem_preorderOf child.ascents child.node
      · exact child_mem_preorderOfList found children below

private theorem child_mem_preorderOfList {parent : Node} {ascents : List Ascent}
    {start : Nat} {cursor child : Cursor} {index : Nat}
    (found : cursor.child? index = some child) :
    (nodes : List Node) → cursor ∈ preorderOfList parent ascents start nodes →
      child ∈ preorderOfList parent ascents start nodes
  | [], member => by simp [preorderOfList] at member
  | node :: rest, member => by
      rw [preorderOfList, List.mem_append] at member ⊢
      rcases member with inFirst | inRest
      · exact Or.inl (child_mem_preorderOf found node inFirst)
      · exact Or.inr (child_mem_preorderOfList found rest inRest)

end

/-- The nodes that are met in going through a node are the node and those below it. -/
theorem mem_preorder_iff {tree : Node} {cursor node : Cursor} (lies : LiesIn tree node) :
    cursor ∈ node.preorder ↔ LiesIn tree cursor ∧ node ∈ cursor.selfAndAncestors := by
  constructor
  · intro member
    apply of_mem_preorderOf ?_ node.node ?_ member
    · rintro upper lower index found ⟨upperLies, below⟩
      refine ⟨LiesIn.child upperLies found, ?_⟩
      rw [selfAndAncestors, ancestors_of_mem_children (mem_children_iff.mpr ⟨index, found⟩)]
      exact List.mem_cons_of_mem lower below
    · exact ⟨lies, List.mem_cons_self⟩
  · rintro ⟨cursorLies, below⟩
    induction cursorLies with
    | root =>
        obtain rfl : node = Cursor.root tree := List.mem_singleton.mp below
        exact self_mem_preorderOf [] tree
    | @child upper lower index upperLies found ih =>
        rcases List.mem_cons.mp below with rfl | higher
        · exact self_mem_preorderOf node.ascents node.node
        · rw [ancestors_of_mem_children (mem_children_iff.mpr ⟨index, found⟩)] at higher
          exact child_mem_preorderOf found node.node (ih higher)

/-- The cursors of a tree are those reached from its root. -/
theorem mem_cursors_iff {tree : Node} {cursor : Cursor} :
    cursor ∈ tree.cursors ↔ LiesIn tree cursor := by
  rw [Node.cursors, mem_preorder_iff LiesIn.root, and_iff_left_iff_imp]
  intro lies
  rcases lies.eq_root_or_mem_ancestors with rfl | below
  · exact List.mem_cons_self
  · exact List.mem_cons_of_mem cursor below

/-- The first node of a kind in a tree that starts at an offset or behind it, and the root
if there is none. -/
def firstFrom (tree : Node) (kind : Kind) (start : Nat) : Cursor :=
  (tree.cursors.find? fun node => decide (node.kind = kind ∧ start ≤ node.span.start)).getD
    (root tree)

theorem firstFrom_mem (tree : Node) (kind : Kind) (start : Nat) :
    firstFrom tree kind start ∈ tree.cursors := by
  rw [firstFrom]
  cases found : tree.cursors.find? fun node =>
    decide (node.kind = kind ∧ start ≤ node.span.start) with
  | none => exact mem_cursors_iff.mpr .root
  | some node => exact List.mem_of_find?_eq_some found

mutual

private theorem address_of_mem_preorderOf {ascents : List Ascent} {cursor : Cursor} :
    (node : Node) → cursor ∈ preorderOf ascents node →
      ∃ front, cursor.address = front ++ ascents.map Ascent.index
  | ⟨kind, field, span, children⟩, member => by
      rw [preorderOf, List.mem_cons] at member
      rcases member with rfl | below
      · exact ⟨[], rfl⟩
      · obtain ⟨front, index, -, addressEq⟩ := address_of_mem_preorderOfList children below
        exact ⟨front ++ [index], by rw [addressEq, List.append_assoc]; rfl⟩

private theorem address_of_mem_preorderOfList {parent : Node} {ascents : List Ascent}
    {start : Nat} {cursor : Cursor} :
    (nodes : List Node) → cursor ∈ preorderOfList parent ascents start nodes →
      ∃ front index, start ≤ index ∧
        cursor.address = front ++ index :: ascents.map Ascent.index
  | [], member => by simp [preorderOfList] at member
  | node :: rest, member => by
      rw [preorderOfList, List.mem_append] at member
      rcases member with inFirst | inRest
      · obtain ⟨front, addressEq⟩ := address_of_mem_preorderOf node inFirst
        exact ⟨front, start, Nat.le_refl start, addressEq⟩
      · obtain ⟨front, index, behind, addressEq⟩ := address_of_mem_preorderOfList rest inRest
        exact ⟨front, index, by omega, addressEq⟩

end

mutual

private theorem nodup_address_preorderOf (ascents : List Ascent) :
    (node : Node) → ((preorderOf ascents node).map address).Nodup
  | ⟨kind, field, span, children⟩ => by
      rw [preorderOf, List.map_cons, List.nodup_cons]
      refine ⟨?_, nodup_address_preorderOfList _ ascents 0 children⟩
      intro repeated
      obtain ⟨cursor, member, addressEq⟩ := List.mem_map.mp repeated
      obtain ⟨front, index, -, longer⟩ := address_of_mem_preorderOfList children member
      rw [addressEq] at longer
      have lengthEq := congrArg List.length longer
      simp only [address, List.length_append, List.length_cons] at lengthEq
      omega

private theorem nodup_address_preorderOfList (parent : Node) (ascents : List Ascent)
    (start : Nat) :
    (nodes : List Node) → ((preorderOfList parent ascents start nodes).map address).Nodup
  | [] => by simp [preorderOfList]
  | node :: rest => by
      rw [preorderOfList, List.map_append, List.nodup_append]
      refine ⟨nodup_address_preorderOf _ node,
        nodup_address_preorderOfList parent ascents (start + 1) rest, ?_⟩
      intro first firstMem second secondMem same
      obtain ⟨cursor, member, rfl⟩ := List.mem_map.mp firstMem
      obtain ⟨other, otherMem, rfl⟩ := List.mem_map.mp secondMem
      obtain ⟨front, firstEq⟩ := address_of_mem_preorderOf node member
      obtain ⟨front', index, behind, secondEq⟩ := address_of_mem_preorderOfList rest otherMem
      -- Both addresses end in the address of the parent; the indices in front of
      -- that end tell the two children apart.
      rw [firstEq, secondEq, List.map_cons] at same
      have endsEq : start :: ascents.map Ascent.index = index :: ascents.map Ascent.index :=
        (List.append_inj' same (by simp)).2
      have indexEq : start = index := (List.cons.inj endsEq).1
      omega

end

theorem nodup_address_preorder (cursor : Cursor) : (cursor.preorder.map address).Nodup :=
  nodup_address_preorderOf cursor.ascents cursor.node

/-- The cursors of a tree have pairwise different addresses. -/
theorem nodup_address_cursors (tree : Node) : (tree.cursors.map address).Nodup :=
  nodup_address_preorder (Cursor.root tree)

/-! ## Sizes -/

theorem size_le_sizeOfList_of_mem {node : Node} {nodes : List Node} (member : node ∈ nodes) :
    node.size ≤ Node.sizeOfList nodes := by
  induction nodes with
  | nil => simp at member
  | cons first rest ih =>
      rw [Node.sizeOfList]
      rcases List.mem_cons.mp member with rfl | later
      · omega
      · have restLe := ih later
        omega

theorem size_eq (node : Node) : node.size = Node.sizeOfList node.children + 1 := by
  cases node
  rw [Node.size]

/-- A child is smaller than its parent. -/
theorem size_lt_of_mem_children {cursor child : Cursor} (member : child ∈ cursor.children) :
    child.node.size < cursor.node.size := by
  obtain ⟨index, found⟩ := mem_children_iff.mp member
  have childLe := size_le_sizeOfList_of_mem (List.mem_of_getElem? (child?_eq_some_iff.mp found).1)
  rw [size_eq cursor.node]
  omega

theorem LiesIn.size_le {tree : Node} {cursor : Cursor} (lies : LiesIn tree cursor) :
    cursor.node.size ≤ tree.size := by
  induction lies with
  | root => exact Nat.le_refl tree.size
  | child above found ih =>
      have smaller := size_lt_of_mem_children (mem_children_iff.mpr ⟨_, found⟩)
      omega

mutual

private theorem length_preorderOf (ascents : List Ascent) :
    (node : Node) → (preorderOf ascents node).length = node.size
  | ⟨kind, field, span, children⟩ => by
      rw [preorderOf, List.length_cons, length_preorderOfList, Node.size]

private theorem length_preorderOfList (parent : Node) (ascents : List Ascent) (index : Nat) :
    (nodes : List Node) →
      (preorderOfList parent ascents index nodes).length = Node.sizeOfList nodes
  | [] => rfl
  | node :: rest => by
      rw [preorderOfList, List.length_append, length_preorderOf, length_preorderOfList,
        Node.sizeOfList]

end

theorem length_cursors (tree : Node) : tree.cursors.length = tree.size :=
  length_preorderOf [] tree

end Cursor

end AssertLint
