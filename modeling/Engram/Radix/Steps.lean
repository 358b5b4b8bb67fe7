import Engram.Radix.Locking

/-!
# The steps of the operations

What moving a node in the LRU lists, splitting a node and ending an insertion do to a tree
that satisfies the invariant: none of their assertions fails, and each of them is one of the
changes of the tree.
-/

namespace Engram.Radix

open Lib List Function

theorem check_ok {condition : Bool} (failure : Failure) (holds : condition = true) :
    check condition failure = .ok () := by
  rw [check, if_pos holds]

namespace Tree

variable {pageSize slot : Nat} {held : List NodeId} {t t' : Tree} {kind : LruKind} {n : NodeId}
  {cfg : CacheConfig} {d : Cache.Descent}

/-! ### The LRU lists -/

theorem Touched.setLru {list : List NodeId} (perm : list.Perm (t.lru kind)) :
    Touched t (t.setLru list kind) := by
  cases kind with
  | full => exact ⟨rfl, rfl, perm, .refl _, rfl⟩
  | mamba => exact ⟨rfl, rfl, .refl _, perm, rfl⟩

theorem resetNodeMru_ok (kind : LruKind) (member : n ∈ t.lru kind)
    (listable : t.listable kind n = true) :
    ∃ t', t.resetNodeMru kind n = .ok t' ∧ Touched t t' := by
  rw [resetNodeMru, check_ok _ (decide_eq_true member), check_ok _ listable]
  exact ⟨_, rfl, .setLru (Recency.addAfter_erase_perm none member)⟩

theorem insertMru_ok (listable : t.listable kind n = true) (absent : n ∉ t.lru kind) :
    t.insertMru kind n = .ok (t.setLru (n :: t.lru kind) kind) := by
  rw [insertMru, check_ok _ listable, check_ok _ (decide_eq_true absent)]
  rfl

theorem removeNode_ok (member : n ∈ t.lru kind) (listable : t.listable kind n = true) :
    t.removeNode kind n = .ok (t.setLru ((t.lru kind).erase n) kind) := by
  rw [removeNode, check_ok _ (decide_eq_true member), check_ok _ listable]
  rfl

theorem Inv.mem_lru (inv : t.Inv pageSize held) (kind : LruKind) (member : n ∈ t.fullLruList)
    (listable : t.listable kind n = true) : n ∈ t.lru kind := by
  cases kind with
  | full => exact member
  | mamba => exact (inv.mambas.listed n).mpr ⟨member, listable⟩

theorem resetParentsLoop_ok {fuel : Nat} (prev : Option NodeId) {chain : List NodeId}
    (climbed : t.wayUp fuel n = some chain)
    (listed : ∀ m ∈ chain, t.listable kind m = true → m ∈ t.lru kind) :
    ∃ t', resetParentsLoop kind fuel prev n t = .ok t' ∧ Touched t t' := by
  induction chain generalizing n t fuel prev with
  | nil =>
    obtain rfl := Forest.climb_nil climbed
    exact ⟨t, by cases fuel <;> rfl, .refl t⟩
  | cons m rest ih =>
    obtain ⟨rfl, isRoot, fuel, rfl, above⟩ := Forest.climb_cons climbed
    have listedRest : ∀ m ∈ rest, t.listable kind m = true → m ∈ t.lru kind :=
      fun m inRest => listed m (mem_cons_of_mem _ inRest)
    rw [resetParentsLoop, if_neg isRoot]
    split
    · next listable =>
      have member := listed m mem_cons_self listable
      rw [check_ok _ (decide_eq_true member)]
      have moved := Touched.setLru (Recency.addAfter_erase_perm prev member)
      have sameLists : ∀ n, n ∈ (t.setLru (Recency.addAfter prev m ((t.lru kind).erase m))
          kind).lru kind ↔ n ∈ t.lru kind := by
        intro m
        cases kind with
        | full => exact moved.full.mem_iff
        | mamba => exact moved.mamba.mem_iff
      -- the nodes above are listed as before
      have climbedAbove : (t.setLru (Recency.addAfter prev m ((t.lru kind).erase m)) kind).wayUp
          fuel (t.nodes m).parent = some rest := by
        rw [wayUp, moved.nodes]
        exact above
      obtain ⟨t', reset, touched⟩ := ih (some m) climbedAbove (by
        intro m inRest listable
        rw [sameLists]
        apply listedRest m inRest
        cases kind with
        | full => rfl
        | mamba => exact listable)
      exact ⟨t', reset, moved.trans touched⟩
    · exact ih prev above listedRest

theorem resetNodeAndParentsMru_ok (inv : t.Inv pageSize held) (kind : LruKind) (has : t.Has n) :
    ∃ t', t.resetNodeAndParentsMru kind n = .ok t' ∧ Touched t t' := by
  obtain ⟨chain, climbed⟩ := inv.shape.forest.exists_climb has (Nat.le_refl _)
  obtain ⟨-, inside⟩ := inv.shape.forest.chain_members has climbed
  exact resetParentsLoop_ok none climbed (fun m inChain => inv.mem_lru kind (inside m inChain))

theorem touch_ok (inv : t.Inv pageSize held) (member : n ∈ t.fullLruList) :
    ∃ t', Cache.touch t n = .ok t' ∧ Touched t t' := by
  obtain ⟨middle, reset, touched⟩ := resetNodeMru_ok .full member rfl
  rw [Cache.touch, reset]
  dsimp only [bind, Except.bind]
  split
  · next hasState =>
    have listed : n ∈ middle.mambaLruList :=
      (inv.touched touched).mem_lru .mamba (touched.full.mem_iff.mpr member) hasState
    obtain ⟨t', again, touched'⟩ := resetNodeMru_ok .mamba listed hasState
    exact ⟨t', again, touched.trans touched'⟩
  · exact ⟨middle, rfl, touched⟩

/-! ### Splitting -/

theorem splitNode_ok (inv : t.Inv pageSize held) {child : NodeId} {k : Nat}
    (member : child ∈ t.fullLruList) (page : pageSize ≤ k)
    (inside : k < (t.nodes child).key.length) :
    ∃ t', t.splitNode pageSize child k = .ok (t', t.nextId) ∧ t.Split pageSize child k t' := by
  have childNe : child ≠ t.nextId := inv.shape.ne_new (.inr member)
  have parentNe : (t.nodes child).parent ≠ t.nextId :=
    inv.shape.ne_new (inv.shape.has_parent member)
  have parentNeChild : (t.nodes child).parent ≠ child := inv.shape.forest.parent_ne member
  have newAbsent : t.nextId ∉ t.fullLruList.erase child := fun listed =>
    inv.shape.new_notMem (mem_of_mem_erase listed)
  have childAbsent : child ∉ t.nextId :: t.fullLruList.erase child := by
    rw [mem_cons, not_or]
    exact ⟨childNe, inv.shape.forest.nodup.not_mem_erase⟩
  have listed := inv.mambas.listed child
  have reordered : (child :: t.nextId :: t.fullLruList.erase child).Perm
      (t.nextId :: t.fullLruList) :=
    (List.Perm.swap ..).trans ((perm_cons_erase member).symm.cons _)
  have split : ∀ mambaLruList : List NodeId, mambaLruList.Perm t.mambaLruList →
      t.Split pageSize child k
        { ((({ t with nextId := t.nextId + 1 }.modify t.nextId
            (fun _ => t.upperHalf pageSize child k)).modify child (fun node => { node with
              parent := t.nextId
              key := node.key.drop k
              value := node.value.drop k })).modify (t.nodes child).parent (fun node => { node with
                children := node.children.insert ((t.nodes child).key.childKey pageSize)
                  t.nextId })) with
          fullLruList := child :: t.nextId :: t.fullLruList.erase child
          mambaLruList } := by
    intro mambaLruList same
    refine ⟨member, page, inside, rfl, reordered, same, rfl, ?_, ?_, ?_, ?_, ?_, ?_, ?_⟩
    -- each field at the new node, the parent, the child, and elsewhere
    all_goals
      intro n
      simp only [modify]
      by_cases isNew : n = t.nextId
      · subst isNew
        simp [childNe.symm, parentNe.symm, upperHalf]
      by_cases isParent : n = (t.nodes child).parent
      · subst isParent
        simp [isNew, parentNeChild]
      by_cases isChild : n = child
      · subst isChild
        simp [isNew, isParent]
      · simp [isNew, isParent, isChild]
  rw [splitNode]
  -- a child with a state is in both lists
  cases hasState : (t.nodes child).mambaValue.isSome with
  | false =>
    refine ⟨_, ?_, split t.mambaLruList (.refl _)⟩
    rw [removeNode_ok (by exact member) rfl]
    simp only [bind, Except.bind]
    rw [insertMru_ok rfl newAbsent]
    simp only
    rw [insertMru_ok rfl childAbsent]
    rfl
  | true =>
    have isListed : child ∈ t.mambaLruList := listed.mpr ⟨member, hasState⟩
    refine ⟨_, ?_, split (child :: t.mambaLruList.erase child)
      (perm_cons_erase isListed).symm⟩
    rw [removeNode_ok (by exact member) rfl]
    simp only [bind, Except.bind]
    rw [removeNode_ok (by exact isListed) (by
      simpa [listable, setLru, modify, update_of_ne childNe] using hasState)]
    simp only
    rw [insertMru_ok rfl newAbsent]
    simp only
    rw [insertMru_ok rfl childAbsent]
    simp only
    rw [insertMru_ok (by
      simpa [listable, setLru, modify, childNe, parentNeChild.symm]
        using hasState) (inv.mambas.nodup.not_mem_erase)]
    rfl

/-! ### The end of an insertion -/

structure Revived (t : Tree) (n : NodeId) (slot : Nat) (t' : Tree) : Prop where
  set : t.MambaSet n (some slot) t'
  member : n ∈ t.fullLruList
  tombstone : (t.nodes n).mambaValue = none
  mamba : t'.mambaLruList.Perm (n :: t.mambaLruList)
  size : ∀ kind, t'.size kind = t.size kind + if kind = .mambaEvictable then 1 else 0

theorem Revived.inv (revived : t.Revived n slot t') (inv : t.Inv pageSize held) :
    t'.Inv pageSize held := by
  have unlocked := inv.tombstone_unlocked revived.member revived.tombstone
  have absent : n ∉ t.mambaLruList := by
    rw [inv.mambas.listed, revived.tombstone]
    simp
  apply inv.mambaSet revived.set revived.member unlocked
  · exact revived.mamba.nodup_iff.mpr (nodup_cons.mpr ⟨absent, inv.mambas.nodup⟩)
  · intro m
    rw [revived.mamba.mem_iff]
    by_cases same : m = n
    · simp [same]
    · simp [same]
  · intro kind
    rw [revived.size]
    cases kind <;> simp [Load.counted, TreeNode.load, revived.tombstone, unlocked]

theorem Revived.leaves (revived : t.Revived n slot t') (leaves : t.Leaves) : t'.Leaves := by
  intro m member isLeaf
  rw [revived.set.sameTree.isLeaf] at isLeaf
  rw [revived.set.nodes]
  by_cases same : m = n
  · subst same
    simp
  · rw [update_of_ne same]
    exact leaves m (revived.set.full.mem_iff.mp member) isLeaf

theorem Grown.leaves {p : NodeId} {key : RadixKey} {value : List Nat}
    (grown : t.Grown pageSize p key value slot t') (leaves : t.Leaves) : t'.Leaves := by
  intro m member isLeaf
  by_cases isNew : m = t.nextId
  · rw [isNew, grown.new]
    rfl
  have old : m ∈ t.fullLruList :=
    (mem_cons.mp (grown.full.mem_iff.mp member)).resolve_left isNew
  rw [(grown.old isNew).2.2.2.1]
  apply leaves m old
  -- the children of an old node do not become fewer
  by_cases isParent : m = p
  · subst isParent
    rw [Tree.isLeaf, grown.above, List.isEmpty_iff] at isLeaf
    have found := OrderedDict.lookup_insert (t.nodes m).children (key.childKey pageSize)
      (key.childKey pageSize) t.nextId
    rw [if_pos rfl, OrderedDict.lookup, isLeaf] at found
    cases found
  · rw [Tree.isLeaf, grown.others m isNew isParent] at isLeaf
    exact isLeaf

theorem finishInsert_grown (slot : Nat) (inv : t.Inv cfg.pageSize held) (has : t.Has d.node)
    (nonempty : d.key.tokenIds ≠ []) (lengths : d.value.length = d.key.length)
    (vacant : (t.nodes d.node).children.lookup (d.key.childKey cfg.pageSize) = none)
    (extra : d.node ≠ rootNode → d.key.extraKey = (t.nodes d.node).key.extraKey) :
    ∃ t', Cache.finishInsert cfg d slot t = .ok (false, t') ∧
      t.Grown cfg.pageSize d.node d.key d.value slot t' := by
  have nodeNe := inv.shape.ne_new has
  have absent : t.nextId ∉ t.mambaLruList := fun listed =>
    inv.shape.new_notMem ((inv.mambas.listed _).mp listed).1
  have someKey : d.key.length ≠ 0 := fun empty => nonempty (length_eq_zero_iff.mp empty)
  rw [Cache.finishInsert, if_pos someKey]
  dsimp only
  rw [insertMru_ok rfl (by exact inv.shape.new_notMem)]
  simp only [bind, Except.bind]
  rw [insertMru_ok (by simp [listable, setLru, modify]) (by exact absent)]
  refine ⟨_, rfl, ?_⟩
  refine ⟨has, vacant, nonempty, lengths, extra, rfl, .refl _, .refl _, rfl, rfl, rfl, rfl, ?_, ?_,
    ?_⟩
  · simp [setLru, modify, nodeNe.symm]
  · simp [setLru, modify, nodeNe]
  · intro n notNew notParent
    simp [setLru, modify, notNew, notParent]

theorem finishInsert_revived (slot : Nat) (inv : t.Inv cfg.pageSize held)
    (member : d.node ∈ t.fullLruList) (empty : d.key.length = 0)
    (tombstone : (t.nodes d.node).mambaValue = none) :
    ∃ t', Cache.finishInsert cfg d slot t = .ok (false, t') ∧ t.Revived d.node slot t' := by
  have absent : d.node ∉ t.mambaLruList := by
    rw [inv.mambas.listed, tombstone]
    simp
  obtain ⟨middle, reset, touched⟩ := resetNodeMru_ok
    (t := t.modify d.node (fun node => { node with mambaValue := some slot })) .full member rfl
  have atNode : middle.nodes =
      update t.nodes d.node { t.nodes d.node with mambaValue := some slot } :=
    touched.nodes
  rw [Cache.finishInsert, if_neg (by simpa using empty), if_pos (by simp [tombstone])]
  dsimp only
  rw [reset]
  simp only [bind, Except.bind]
  rw [insertMru_ok (by simp [listable, atNode]) (by
    rw [show middle.lru .mamba = middle.mambaLruList from rfl, touched.mamba.mem_iff]
    exact absent)]
  refine ⟨_, rfl, ⟨atNode, touched.nextId, touched.full⟩, member, tombstone,
    touched.mamba.cons _, ?_⟩
  intro kind
  have same : middle.size kind = t.size kind := congrFun touched.size kind
  rw [← same]
  cases kind with
  | fullEvictable => exact (Int.add_zero _).symm
  | fullProtected => exact (Int.add_zero _).symm
  | mambaEvictable => rfl
  | mambaProtected => exact (Int.add_zero _).symm

theorem finishInsert_present (slot : Nat) (inv : t.Inv cfg.pageSize held)
    (member : d.node ∈ t.fullLruList) (empty : d.key.length = 0)
    (hasState : (t.nodes d.node).mambaValue.isSome = true) :
    ∃ t', Cache.finishInsert cfg d slot t = .ok (true, t') ∧ Touched t t' := by
  obtain ⟨middle, reset, first⟩ := resetNodeMru_ok .full member rfl
  have stillState : (middle.nodes d.node).mambaValue.isSome = true := by
    rw [first.nodes]
    exact hasState
  have listed : d.node ∈ middle.lru .mamba :=
    (inv.touched first).mem_lru .mamba (first.full.mem_iff.mpr member) stillState
  obtain ⟨t', again, second⟩ := resetNodeMru_ok .mamba listed stillState
  rw [Cache.finishInsert, if_neg (by simpa using empty), if_neg (by
    rw [Option.isNone_iff_eq_none]
    intro tombstone
    simp [tombstone] at hasState), reset]
  simp only [bind, Except.bind]
  rw [again]
  exact ⟨t', rfl, first.trans second⟩

end Tree

end Engram.Radix
