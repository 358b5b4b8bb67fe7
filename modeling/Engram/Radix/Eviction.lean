import Engram.Radix.Insertion

/-!
# Eviction

What `evict_full` and `evict_mamba` take away. An eviction has two lists of victims: the nodes
that leave the tree, and the nodes whose Mamba state is freed. After the deletion of a leaf its
parent may be a childless tombstone; it is deleted as well, and so on upwards
(`evictLeafNode_ok`).
-/

namespace Engram.Radix

open Lib List

namespace Tree

variable {pageSize : Nat} {held : List NodeId} {t t' : Tree} {n : NodeId}

/-! ### The next victim -/

theorem getPrevNoLock_ok (listed : n ∈ t.mambaLruList) :
    t.getPrevNoLock n = .ok (Recency.newerThan (t.unlocked .mamba) t.mambaLruList n) := by
  rw [getPrevNoLock, check_ok _ (decide_eq_true listed)]
  rfl

theorem getPrevLeafNoLock_ok (listed : n ∈ t.fullLruList) :
    t.getPrevLeafNoLock n = .ok (Recency.newerThan t.evictableLeaf t.fullLruList n) := by
  rw [getPrevLeafNoLock, check_ok _ (decide_eq_true listed)]
  rfl

/-! ### Deleting a leaf -/

theorem popFromParent_ok (listed : (t.nodes (t.nodes n).parent).children.lookup
      ((t.nodes n).key.childKey pageSize) = some n) :
    t.popFromParent pageSize n = .ok (t.modify (t.nodes n).parent (fun node =>
      { node with children := node.children.erase ((t.nodes n).key.childKey pageSize) })) := by
  rw [popFromParent, check_ok _ (by simpa using listed)]
  rfl

def without (t : Tree) (pageSize : Nat) (n : NodeId) (mambaLruList : List NodeId)
    (fullSize mambaSize : Int) : Tree :=
  { t.modify (t.nodes n).parent (fun node =>
      { node with children := node.children.erase ((t.nodes n).key.childKey pageSize) }) with
    fullLruList := t.fullLruList.erase n
    mambaLruList
    fullEvictableSize := t.fullEvictableSize - fullSize
    mambaEvictableSize := t.mambaEvictableSize - mambaSize }

theorem without_removed (pageSize : Nat) (member : n ∈ t.fullLruList) (leaf : t.isLeaf n = true)
    {mambaLruList : List NodeId} (mamba : mambaLruList = t.mambaLruList.erase n)
    (fullSize mambaSize : Int) :
    t.Removed pageSize n (t.without pageSize n mambaLruList fullSize mambaSize) := by
  refine ⟨member, leaf, rfl, rfl, mamba, ?_, ?_⟩
  · intro m
    by_cases isParent : m = (t.nodes n).parent
    · subst isParent
      simp [without, modify]
    · simp [without, modify, isParent]
  · intro m
    by_cases isParent : m = (t.nodes n).parent
    · subst isParent
      simp [without, modify]
    · simp [without, modify, isParent]

theorem Removed.isLeaf {m : NodeId} (removed : t.Removed pageSize n t')
    (notParent : m ≠ (t.nodes n).parent) : t'.isLeaf m = t.isLeaf m := by
  rw [Tree.isLeaf, Tree.isLeaf, removed.children, if_neg notParent]

theorem Removed.has_parent (removed : t.Removed pageSize n t') (shape : t.Shape pageSize) :
    t'.Has (t'.nodes n).parent := by
  rw [removed.parent]
  refine (shape.has_parent removed.member).imp_right fun inTree => ?_
  exact (removed.mem_full_iff shape).mpr ⟨shape.forest.parent_ne removed.member, inTree⟩

theorem Removed.leaves (removed : t.Removed pageSize n t') (shape : t.Shape pageSize)
    (leaves : ∀ m ∈ t.fullLruList, m ≠ n → t.isLeaf m = true →
      (t.nodes m).mambaValue.isSome = true) :
    ∀ m ∈ t'.fullLruList, m ≠ (t'.nodes n).parent → t'.isLeaf m = true →
      (t'.nodes m).mambaValue.isSome = true := by
  intro m inTree notParent isLeaf
  obtain ⟨different, old⟩ := (removed.mem_full_iff shape).mp inTree
  rw [removed.parent] at notParent
  rw [removed.isLeaf notParent] at isLeaf
  rw [removed.field TreeNode.mambaValue (fun _ => rfl)]
  exact leaves m old different isLeaf

theorem Inv.leaf_lock (inv : t.Inv pageSize held) (member : n ∈ t.fullLruList)
    (leaf : t.isLeaf n = true) : (t.nodes n).fullLockRef = (t.nodes n).mambaLockRef := by
  have childless := (inv.shape.isLeaf_iff (.inr member)).mp leaf
  have none : childSum t.fullLruList (fun m => (t.nodes m).parent)
      (fun m => (t.nodes m).fullLockRef) n = 0 := by
    apply tally_eq_zero_iff.mpr
    intro m inside
    rw [if_neg (childless m inside)]
  have sum := inv.locks.flow n member
  simp only [none] at sum
  exact sum

theorem key_modify_children (t : Tree) (p : NodeId) (f : TreeNode → OrderedDict ChildKey NodeId)
    (m : NodeId) :
    ((t.modify p (fun node => { node with children := f node })).nodes m).key =
      (t.nodes m).key := by
  by_cases isParent : m = p
  · subst isParent
    simp [modify]
  · simp [modify, isParent]

theorem deleteLeaf_ok (inv : t.Inv pageSize held) (member : n ∈ t.fullLruList)
    (leaf : t.isLeaf n = true) (hasState : (t.nodes n).mambaValue.isSome = true)
    (unlocked : (t.nodes n).fullLockRef = 0) :
    ∃ t₁ t₂ t', t.removeNode .full n = .ok t₁ ∧ t₁.removeNode .mamba n = .ok t₂ ∧
      t₂.deleteLeaf pageSize n = .ok t' ∧ t.Removed pageSize n t' ∧ t'.Inv pageSize held := by
  have listed : n ∈ t.mambaLruList := (inv.mambas.listed n).mpr ⟨member, hasState⟩
  have mambaUnlocked := (inv.leaf_lock member leaf).symm.trans unlocked
  have lengths : (t.nodes n).key.length = (t.nodes n).value.length :=
    (inv.shape.keyed n member).2.symm
  have removed := without_removed pageSize member leaf rfl (t.nodes n).key.length 1
  refine ⟨_, _, t.without pageSize n (t.mambaLruList.erase n) (t.nodes n).key.length 1,
    removeNode_ok member rfl, removeNode_ok listed hasState, ?_, removed,
    inv.removed removed unlocked ?_⟩
  · rw [deleteLeaf, check_ok _ (by exact hasState), check_ok _ (by exact leaf)]
    simp only [bind, Except.bind]
    rw [popFromParent_ok (by exact inv.shape.listed n member)]
    simp only
    rw [key_modify_children]
    rfl
  · intro kind
    cases kind <;> simp [size, without, modify, Load.counted, TreeNode.load, unlocked,
      mambaUnlocked, hasState, lengths]

theorem deleteTombstoneLeaf_ok (inv : t.Inv pageSize held) (member : n ∈ t.fullLruList)
    (leaf : t.isLeaf n = true) (tombstone : (t.nodes n).mambaValue = none) :
    ∃ t₁ t', t.removeNode .full n = .ok t₁ ∧ t₁.deleteTombstoneLeaf pageSize n = .ok t' ∧
      t.Removed pageSize n t' ∧ t'.Inv pageSize held := by
  have notListed : n ∉ t.mambaLruList := by
    rw [inv.mambas.listed, tombstone]
    simp
  have mambaUnlocked := inv.tombstone_unlocked member tombstone
  have unlocked := (inv.leaf_lock member leaf).trans mambaUnlocked
  have lengths : (t.nodes n).key.length = (t.nodes n).value.length :=
    (inv.shape.keyed n member).2.symm
  have removed := without_removed pageSize member leaf
    (erase_of_not_mem notListed).symm (t.nodes n).key.length 0
  refine ⟨_, t.without pageSize n t.mambaLruList (t.nodes n).key.length 0,
    removeNode_ok member rfl, ?_, removed, inv.removed removed unlocked ?_⟩
  · rw [deleteTombstoneLeaf, check_ok _ (by simp [setLru, tombstone]),
      check_ok _ (by exact leaf)]
    simp only [bind, Except.bind]
    rw [popFromParent_ok (by exact inv.shape.listed n member)]
    simp only
    rw [key_modify_children]
    simp only [without, Int.sub_zero]
    rfl
  · intro kind
    cases kind <;> simp [size, without, modify, Load.counted, TreeNode.load, unlocked,
      tombstone, lengths]

end Tree

namespace Cache

variable {cfg : CacheConfig} {held : List NodeId} {c c' c'' : Cache} {n x : NodeId}

/-! ### Victims -/

/-- The nodes `kvs` are removed and their indices freed; the nodes `mambas` lose their state,
    which is freed. -/
structure Drops (cfg : CacheConfig) (c : Cache) (kvs mambas : List NodeId) (c' : Cache) :
    Prop where
  parent : ∀ n, (c'.tree.nodes n).parent = (c.tree.nodes n).parent
  key : ∀ n, (c'.tree.nodes n).key = (c.tree.nodes n).key
  value : ∀ n, (c'.tree.nodes n).value = (c.tree.nodes n).value
  states : ∀ n, n ∉ mambas → (c'.tree.nodes n).mambaValue = (c.tree.nodes n).mambaValue
  full : c'.tree.fullLruList = c.tree.fullLruList.filter (· ∉ kvs)
  mamba : c'.tree.mambaLruList = c.tree.mambaLruList.filter (· ∉ mambas)
  insideKv : ∀ n ∈ kvs, n ∈ c.tree.fullLruList
  insideMamba : ∀ n ∈ mambas, n ∈ c.tree.mambaLruList
  distinctKv : kvs.Nodup
  distinctMamba : mambas.Nodup
  pages : c'.freePages =
    ((kvs.map fun n => (c.tree.nodes n).value).foldl (freeKv cfg) c).freePages
  slots : c'.freeSlots = c.freeSlots ++ mambas.filterMap fun n => (c.tree.nodes n).mambaValue

/-- An eviction drops unlocked nodes and states, and leaves the locks alone. -/
structure Evicts (cfg : CacheConfig) (c : Cache) (kvs mambas : List NodeId) (c' : Cache) : Prop
    extends Drops cfg c kvs mambas c' where
  fullLockRef : ∀ n, (c'.tree.nodes n).fullLockRef = (c.tree.nodes n).fullLockRef
  mambaLockRef : ∀ n, (c'.tree.nodes n).mambaLockRef = (c.tree.nodes n).mambaLockRef
  unlockedKv : ∀ n ∈ kvs, (c.tree.nodes n).fullLockRef = 0
  unlockedMamba : ∀ n ∈ mambas, (c.tree.nodes n).mambaLockRef = 0

/-- What the indices of some nodes add up to. -/
def tokensOf (c : Cache) (kvs : List NodeId) : Nat :=
  tally kvs (fun n => (c.tree.nodes n).value.length)

theorem erase_eq_filter {list : List NodeId} (distinct : list.Nodup) (x : NodeId) :
    list.erase x = list.filter (· ∉ [x]) := by
  rw [distinct.erase_eq_filter]
  apply filter_congr
  intro n _
  by_cases same : n = x
  · simp [same]
  · simp [same]

theorem filter_notMem_filter (list victims victims' : List NodeId) :
    (list.filter (· ∉ victims)).filter (· ∉ victims') = list.filter (· ∉ victims ++ victims') := by
  rw [filter_filter]
  refine filter_congr fun n _ => ?_
  simp [Bool.and_comm]

theorem foldl_freeKv_congr (cfg : CacheConfig) (values : List (List Nat))
    (same : c.freePages = c'.freePages) :
    (values.foldl (freeKv cfg) c).freePages = (values.foldl (freeKv cfg) c').freePages := by
  induction values generalizing c c' with
  | nil => exact same
  | cons value values ih => exact ih (freeKv_freePages_congr cfg same value)

namespace Drops

variable {kvs mambas kvs' mambas' : List NodeId}

theorem refl (cfg : CacheConfig) (c : Cache) : Drops cfg c [] [] c where
  parent := fun _ => rfl
  key := fun _ => rfl
  value := fun _ => rfl
  states := fun _ _ => rfl
  full := by simp
  mamba := by simp
  insideKv := forall_mem_nil _
  insideMamba := forall_mem_nil _
  distinctKv := nodup_nil
  distinctMamba := nodup_nil
  pages := rfl
  slots := by simp

section

variable (drops : Drops cfg c kvs mambas c')

include drops

theorem mem_full_iff :
    n ∈ c'.tree.fullLruList ↔ n ∈ c.tree.fullLruList ∧ n ∉ kvs := by
  rw [drops.full, mem_filter, decide_eq_true_iff]

theorem mem_mamba_iff :
    n ∈ c'.tree.mambaLruList ↔ n ∈ c.tree.mambaLruList ∧ n ∉ mambas := by
  rw [drops.mamba, mem_filter, decide_eq_true_iff]

theorem length_states (mambaLists : c.tree.Mambas) :
    (mambas.filterMap fun n => (c.tree.nodes n).mambaValue).length = mambas.length := by
  rw [length_filterMap_eq_countP, countP_eq_length]
  exact fun n victim => ((mambaLists.listed n).mp (drops.insideMamba n victim)).2

theorem tokensOf (nodes : List NodeId) :
    c'.tokensOf nodes = c.tokensOf nodes := by
  apply tally_congr
  intro n _
  rw [drops.value]

end

theorem trans (first : Drops cfg c kvs mambas c') (second : Drops cfg c' kvs' mambas' c'') :
    Drops cfg c (kvs ++ kvs') (mambas ++ mambas') c'' where
  parent := fun n => (second.parent n).trans (first.parent n)
  key := fun n => (second.key n).trans (first.key n)
  value := fun n => (second.value n).trans (first.value n)
  states := by
    intro n spared
    rw [mem_append, not_or] at spared
    rw [second.states n spared.2, first.states n spared.1]
  full := by rw [second.full, first.full, filter_notMem_filter]
  mamba := by rw [second.mamba, first.mamba, filter_notMem_filter]
  insideKv := by
    intro n victim
    rcases mem_append.mp victim with early | late
    · exact first.insideKv n early
    · exact (first.mem_full_iff.mp (second.insideKv n late)).1
  insideMamba := by
    intro n victim
    rcases mem_append.mp victim with early | late
    · exact first.insideMamba n early
    · exact (first.mem_mamba_iff.mp (second.insideMamba n late)).1
  distinctKv := by
    apply nodup_append.mpr
    refine ⟨first.distinctKv, second.distinctKv, ?_⟩
    -- a late victim was still listed, so it is not an early one
    rintro n early m late rfl
    exact (first.mem_full_iff.mp (second.insideKv n late)).2 early
  distinctMamba := by
    apply nodup_append.mpr
    refine ⟨first.distinctMamba, second.distinctMamba, ?_⟩
    rintro n early m late rfl
    exact (first.mem_mamba_iff.mp (second.insideMamba n late)).2 early
  pages := by
    have values : kvs'.map (fun n => (c'.tree.nodes n).value) =
        kvs'.map (fun n => (c.tree.nodes n).value) :=
      map_congr_left (fun n _ => first.value n)
    rw [second.pages, values, map_append, foldl_append]
    exact foldl_freeKv_congr cfg _ first.pages
  slots := by
    have states : mambas'.filterMap (fun n => (c'.tree.nodes n).mambaValue) =
        mambas'.filterMap (fun n => (c.tree.nodes n).mambaValue) := by
      apply filterMap_congr
      intro n late
      exact first.states n (first.mem_mamba_iff.mp (second.insideMamba n late)).2
    rw [second.slots, first.slots, states, filterMap_append, append_assoc]

end Drops

namespace Evicts

variable {kvs mambas kvs' mambas' : List NodeId}

theorem refl (cfg : CacheConfig) (c : Cache) : Evicts cfg c [] [] c where
  toDrops := .refl cfg c
  fullLockRef := fun _ => rfl
  mambaLockRef := fun _ => rfl
  unlockedKv := forall_mem_nil _
  unlockedMamba := forall_mem_nil _

theorem trans (first : Evicts cfg c kvs mambas c') (second : Evicts cfg c' kvs' mambas' c'') :
    Evicts cfg c (kvs ++ kvs') (mambas ++ mambas') c'' where
  toDrops := first.toDrops.trans second.toDrops
  fullLockRef := fun n => (second.fullLockRef n).trans (first.fullLockRef n)
  mambaLockRef := fun n => (second.mambaLockRef n).trans (first.mambaLockRef n)
  unlockedKv := by
    intro n victim
    rcases mem_append.mp victim with early | late
    · exact first.unlockedKv n early
    · rw [← first.fullLockRef]
      exact second.unlockedKv n late
  unlockedMamba := by
    intro n victim
    rcases mem_append.mp victim with early | late
    · exact first.unlockedMamba n early
    · rw [← first.mambaLockRef]
      exact second.unlockedMamba n late

end Evicts

theorem evicts_removed (inv : c.tree.Inv cfg.pageSize held)
    (removed : c.tree.Removed cfg.pageSize x c'.tree) (unlocked : (c.tree.nodes x).fullLockRef = 0)
    (pages : c'.freePages = (c.freeKv cfg (c.tree.nodes x).value).freePages)
    (slots : c'.freeSlots = c.freeSlots ++ (c.tree.nodes x).mambaValue.toList) :
    Evicts cfg c [x] ([x].filter fun n => (c.tree.nodes n).mambaValue.isSome) c' := by
  have listed := inv.mambas.listed x
  -- the state of the leaf is freed if it has one
  have victim {n : NodeId}
      (member : n ∈ [x].filter fun n => (c.tree.nodes n).mambaValue.isSome) :
      n = x ∧ x ∈ c.tree.mambaLruList := by
    obtain ⟨isLeaf, hasState⟩ := mem_filter.mp member
    rw [mem_singleton.mp isLeaf] at hasState
    exact ⟨mem_singleton.mp isLeaf, listed.mpr ⟨removed.member, hasState⟩⟩
  exact {
    parent := removed.parent
    key := removed.key
    value := removed.field TreeNode.value (fun _ => rfl)
    fullLockRef := removed.field TreeNode.fullLockRef (fun _ => rfl)
    mambaLockRef := removed.field TreeNode.mambaLockRef (fun _ => rfl)
    states := fun n _ => removed.field TreeNode.mambaValue (fun _ => rfl) n
    full := removed.full.trans (erase_eq_filter inv.shape.forest.nodup x)
    mamba := by
      rw [removed.mamba, erase_eq_filter inv.mambas.nodup]
      refine filter_congr fun n member => ?_
      have hasState := ((inv.mambas.listed n).mp member).2
      simp [hasState]
    insideKv := forall_mem_singleton.mpr removed.member
    insideMamba := fun n member => (victim member).1 ▸ (victim member).2
    unlockedKv := forall_mem_singleton.mpr unlocked
    unlockedMamba := fun n member =>
      (victim member).1 ▸ (inv.leaf_lock removed.member removed.leaf).symm.trans unlocked
    distinctKv := nodup_singleton x
    distinctMamba := (nodup_singleton x).filter _
    pages := pages
    slots := by
      rw [slots]
      cases state : (c.tree.nodes x).mambaValue <;> simp [state] }

/-! ### Tombstones above a deleted node -/

/-- The tombstones `kvs` above `n`, which is deleted already, are deleted; the last deleted
    node is `last`. -/
structure Cascades (cfg : CacheConfig) (held : List NodeId) (c : Cache) (n : NodeId)
    (kvs : List NodeId) (last : NodeId) (c' : Cache) : Prop where
  evicts : Evicts cfg c kvs [] c'
  inv : c'.tree.Inv cfg.pageSize held
  leaves : c'.tree.Leaves
  deleted : last ∈ n :: kvs
  above : ∀ v ∈ kvs, ∃ w ∈ n :: kvs, (c.tree.nodes w).parent = v
  leaf : ∀ m ∈ c'.tree.fullLruList, m ≠ (c.tree.nodes last).parent →
    m ≠ (c.tree.nodes n).parent ∧ c'.tree.isLeaf m = c.tree.isLeaf m

theorem Cascades.stop (inv : c.tree.Inv cfg.pageSize held) (leaves : c.tree.Leaves) :
    Cascades cfg held c n [] n c :=
  ⟨.refl cfg c, inv, leaves, mem_singleton_self n,
    forall_mem_nil _, fun _ _ other => ⟨other, rfl⟩⟩

theorem deleteTombstonesLoop_ok {fuel : Nat} (acc : Nat) (inv : c.tree.Inv cfg.pageSize held)
    (has : c.tree.Has (c.tree.nodes n).parent)
    (leaves : ∀ m ∈ c.tree.fullLruList, m ≠ (c.tree.nodes n).parent →
      c.tree.isLeaf m = true → (c.tree.nodes m).mambaValue.isSome = true)
    (enough : c.tree.fullLruList.length < fuel) :
    ∃ kvs last c', deleteTombstonesLoop cfg fuel n acc c = .ok (last, acc + c.tokensOf kvs, c') ∧
      Cascades cfg held c n kvs last c' := by
  induction fuel generalizing n acc c with
  | zero => exact absurd enough (Nat.not_lt_zero _)
  | succ fuel ih =>
    generalize isParent : (c.tree.nodes n).parent = p at has leaves
    -- the parent is the only leaf that may lack a state
    have stops : (p ∈ c.tree.fullLruList → c.tree.isLeaf p = true →
        (c.tree.nodes p).mambaValue.isSome = true) → Cascades cfg held c n [] n c := by
      intro atParent
      apply Cascades.stop inv
      intro m member isLeaf
      by_cases same : m = p
      · subst same
        exact atParent member isLeaf
      · exact leaves m member same isLeaf
    rw [deleteTombstonesLoop]
    simp only [isParent]
    split
    · next goesOn =>
      refine ⟨[], n, c, rfl, stops fun _ isLeaf => ?_⟩
      simpa [isLeaf] using goesOn
    next isTombstone =>
    split
    · next isRoot =>
      refine ⟨[], n, c, rfl, stops fun member => ?_⟩
      exact absurd isRoot (inv.shape.forest.ne_root member)
    next notRoot =>
    have member := has.resolve_left notRoot
    obtain ⟨tombstone, isLeaf⟩ : (c.tree.nodes p).mambaValue = none ∧ c.tree.isLeaf p = true := by
      simpa using isTombstone
    have mambaUnlocked := inv.tombstone_unlocked member tombstone
    have unlocked := (inv.leaf_lock member isLeaf).trans mambaUnlocked
    rw [if_neg (by omega), check_ok _ (by simpa using mambaUnlocked)]
    obtain ⟨t₁, t', fromList, deleted, removed, inv'⟩ :=
      Tree.deleteTombstoneLeaf_ok inv member isLeaf tombstone
    simp only [bind, Except.bind, freeKv_tree, fromList, deleted]
    generalize isNext : ({ c.freeKv cfg (c.tree.nodes p).value with tree := t' } : Cache) = next
    have isTree : next.tree = t' := by rw [← isNext]
    rw [← isTree] at removed inv'
    have first : Evicts cfg c [p] [] next := by
      have evicts := evicts_removed inv removed unlocked (by rw [← isNext])
        (by rw [← isNext, tombstone, Option.toList_none, append_nil]; exact freeKv_freeSlots ..)
      simpa [tombstone] using evicts
    -- one more node is gone, and its parent is the next that may lack a state
    have enough' : next.tree.fullLruList.length < fuel := by
      have shorter := length_erase_of_mem member
      have some := length_pos_of_mem member
      rw [removed.full]
      omega
    obtain ⟨kvs, last, c', loops, cascades⟩ :=
      ih (acc + (c.tree.nodes p).value.length) inv' (removed.has_parent inv.shape)
        (removed.leaves inv.shape leaves) enough'
    refine ⟨p :: kvs, last, c', ?_, ?_, cascades.inv, cascades.leaves,
      mem_cons_of_mem _ cascades.deleted, ?_, ?_⟩
    · rw [loops, first.tokensOf, tokensOf, tokensOf, tally_cons, Nat.add_assoc]
    · exact first.trans cascades.evicts
    · intro v victim
      rcases mem_cons.mp victim with rfl | later
      · exact ⟨n, mem_cons_self, isParent⟩
      · obtain ⟨w, inside, isAbove⟩ := cascades.above v later
        rw [removed.parent] at isAbove
        exact ⟨w, mem_cons_of_mem _ inside, isAbove⟩
    · intro m inTree notParent
      rw [← removed.parent] at notParent
      obtain ⟨notAbove, sameLeaf⟩ := cascades.leaf m inTree notParent
      rw [removed.parent] at notAbove
      have inNext := (cascades.evicts.mem_full_iff.mp inTree).1
      refine ⟨?_, sameLeaf.trans (removed.isLeaf notAbove)⟩
      rw [isParent]
      exact ((removed.mem_full_iff inv.shape).mp inNext).1

/-! ### One victim -/

structure EvictsLeaf (cfg : CacheConfig) (held : List NodeId) (c : Cache) (x : NodeId)
    (tombstones : List NodeId) (last : NodeId) (c' : Cache) : Prop where
  evicts : Evicts cfg c (x :: tombstones) [x] c'
  inv : c'.tree.Inv cfg.pageSize held
  leaves : c'.tree.Leaves
  rest : c'.tree.isLeaf (c'.tree.nodes last).parent = false →
    c'.tree.fullLruList.filter c'.tree.evictableLeaf =
      (c.tree.fullLruList.filter c.tree.evictableLeaf).erase x

theorem parent_isLeaf {t : Tree} {pageSize : Nat} (shape : t.Shape pageSize)
    (member : n ∈ t.fullLruList) : t.isLeaf (t.nodes n).parent = false := by
  rw [← Bool.not_eq_true, shape.isLeaf_iff (shape.has_parent member)]
  exact fun childless => childless n member rfl

/-- The leaves that may be evicted are the old ones without `x`, unless the last deletion
    has made a leaf of another node. -/
theorem evictableLeaves {last : NodeId} {tombstones : List NodeId} {next : Cache}
    (inv : c.tree.Inv cfg.pageSize held) (removed : c.tree.Removed cfg.pageSize x next.tree)
    (cascades : Cascades cfg held next x tombstones last c')
    (evicts : Evicts cfg c (x :: tombstones) [x] c')
    (notLeaf : c'.tree.isLeaf (c'.tree.nodes last).parent = false) :
    c'.tree.fullLruList.filter c'.tree.evictableLeaf =
      (c.tree.fullLruList.filter c.tree.evictableLeaf).erase x := by
  have inTree := evicts.insideKv
  have kept : ∀ m ∈ c'.tree.fullLruList, c'.tree.evictableLeaf m = c.tree.evictableLeaf m := by
    intro m member
    have sameLeaf : c'.tree.isLeaf m = c.tree.isLeaf m := by
      by_cases isParent : m = (c.tree.nodes last).parent
      · rw [isParent, parent_isLeaf inv.shape (inTree last cascades.deleted), ← notLeaf,
          evicts.parent]
      · rw [← removed.parent] at isParent
        obtain ⟨notAbove, same⟩ := cascades.leaf m member isParent
        rw [removed.parent] at notAbove
        exact same.trans (removed.isLeaf notAbove)
    rw [Tree.evictableLeaf, Tree.evictableLeaf, sameLeaf, Tree.unlocked, Tree.unlocked,
      evicts.fullLockRef]
  -- the tombstones had children
  have gone : ∀ v ∈ tombstones, c.tree.evictableLeaf v = false := by
    intro v victim
    obtain ⟨w, inside, isAbove⟩ := cascades.above v victim
    rw [removed.parent] at isAbove
    rw [Tree.evictableLeaf, ← isAbove, parent_isLeaf inv.shape (inTree w inside), Bool.and_false]
  rw [filter_congr kept, evicts.full, erase_eq_filter (inv.shape.forest.nodup.filter _),
    filter_filter, filter_filter]
  apply filter_congr
  intro n _
  by_cases victim : n ∈ tombstones
  · simp [gone n victim]
  · simp [victim, Bool.and_comm]

theorem evictLeafNode_ok (isEvictMamba : Bool) (inv : c.tree.Inv cfg.pageSize held)
    (leaves : c.tree.Leaves) (member : x ∈ c.tree.fullLruList) (leaf : c.tree.isLeaf x = true)
    (unlocked : (c.tree.nodes x).fullLockRef = 0) :
    ∃ tombstones last c', evictLeafNode cfg c x isEvictMamba =
      .ok (⟨c.tokensOf (x :: tombstones), 1⟩, last,
        (if isEvictMamba then Recency.newerThan (c.tree.unlocked .mamba) c.tree.mambaLruList x
          else Recency.newerThan c.tree.evictableLeaf c.tree.fullLruList x), c') ∧
      EvictsLeaf cfg held c x tombstones last c' := by
  have hasState := leaves x member leaf
  have listed : x ∈ c.tree.mambaLruList := (inv.mambas.listed x).mpr ⟨member, hasState⟩
  have mambaUnlocked := (inv.leaf_lock member leaf).symm.trans unlocked
  obtain ⟨slot, state⟩ := Option.isSome_iff_exists.mp hasState
  obtain ⟨t₁, t₂, t', fromFull, fromMamba, deleted, removed, inv'⟩ :=
    Tree.deleteLeaf_ok inv member leaf hasState unlocked
  generalize isNext :
    ({ (c.freeKv cfg (c.tree.nodes x).value).freeMamba slot with tree := t' } : Cache) = next
  have isTree : next.tree = t' := by rw [← isNext]
  rw [← isTree] at removed inv'
  -- the leaf, and then the tombstones above it
  have first : Evicts cfg c [x] [x] next := by
    have evicts := evicts_removed inv removed unlocked (by rw [← isNext]; rfl)
      (by rw [← isNext, state]; exact congrArg (· ++ [slot]) (freeKv_freeSlots ..))
    simpa [state] using evicts
  obtain ⟨tombstones, last, c', loops, cascades⟩ :=
    deleteTombstonesLoop_ok 0 inv' (removed.has_parent inv.shape)
      (removed.leaves inv.shape fun m inTree _ => leaves m inTree) (Nat.lt_succ_self _)
  have evicts := first.trans cascades.evicts
  refine ⟨tombstones, last, c', ?_, evicts, cascades.inv, cascades.leaves,
    evictableLeaves inv removed cascades evicts⟩
  -- the next victim is looked up before the tree changes
  have sameTree : ((c.freeKv cfg (c.tree.nodes x).value).freeMamba slot).tree = c.tree :=
    freeKv_tree ..
  rw [evictLeafNode, check_ok _ (by simp [unlocked, mambaUnlocked]), state]
  simp only [bind, Except.bind, sameTree, Tree.getPrevNoLock_ok listed,
    Tree.getPrevLeafNoLock_ok member]
  have counted : c.tokensOf (x :: tombstones) =
      (c.tree.nodes x).value.length + next.tokensOf tombstones := by
    rw [first.tokensOf]
    rfl
  rw [Nat.zero_add] at loops
  have above : iterativelyDeleteTombstoneLeaf cfg next x =
      .ok (last, next.tokensOf tombstones, c') := loops
  cases isEvictMamba with
  | true => simp only [if_true, fromFull, fromMamba, deleted, isNext, above, counted]
  | false =>
    simp only [Bool.false_eq_true, if_false, fromFull, fromMamba, deleted, isNext, above, counted]

end Cache

end Engram.Radix
