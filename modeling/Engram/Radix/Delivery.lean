import Engram.Radix.Eviction

/-!
# What an eviction delivers

The loops of `evict_mamba` and `evict_full` keep the next victim while they change the lists it
was found in. It is always the one that a new search would find, so a loop ends early only when
nothing is left to evict (`evictMamba_ok`, `evictFull_ok`).
-/

namespace Engram.Radix

open Lib List

namespace Tree

variable {pageSize : Nat} {held : List NodeId} {t t' : Tree} {n : NodeId}

theorem tombstoneInternalNode_ok (inv : t.Inv pageSize held) (leaves : t.Leaves)
    (listed : n ∈ t.mambaLruList) (unlocked : (t.nodes n).mambaLockRef = 0)
    (internal : t.isLeaf n = false) :
    ∃ t₁ t', t.removeNode .mamba n = .ok t₁ ∧ t₁.tombstoneInternalNode n = .ok t' ∧
      t.MambaSet n none t' ∧ t'.fullLruList = t.fullLruList ∧
      t'.mambaLruList = t.mambaLruList.erase n ∧ t'.Inv pageSize held ∧ t'.Leaves := by
  obtain ⟨member, hasState⟩ := (inv.mambas.listed n).mp listed
  have set : t.MambaSet n none { (t.setLru (t.mambaLruList.erase n) .mamba).modify n
      (fun node => { node with mambaValue := none }) with
        mambaEvictableSize := t.mambaEvictableSize - 1 } :=
    ⟨rfl, rfl, .refl _⟩
  refine ⟨_, _, removeNode_ok listed hasState, ?_, set, rfl, rfl, ?_, ?_⟩
  · rw [tombstoneInternalNode, check_ok _ (by rw [Bool.not_eq_true']; exact internal)]
    rfl
  · apply inv.mambaSet set member unlocked (inv.mambas.nodup.erase n)
    · intro m
      have kept : m ∈ t.mambaLruList.erase n ↔ m ≠ n ∧ m ∈ t.mambaLruList :=
        inv.mambas.nodup.mem_erase_iff
      refine kept.trans ?_
      by_cases same : m = n
      · simp
      · simp
    intro kind
    cases kind with
    | fullEvictable => rfl
    | fullProtected => rfl
    | mambaEvictable => simp [size, Load.counted, TreeNode.load, hasState, unlocked]
    | mambaProtected =>
      simp [size, setLru, modify, Load.counted, TreeNode.load, unlocked]
  · -- the node has children, so the leaves are others
    intro m inTree isLeaf
    rw [set.sameTree.isLeaf] at isLeaf
    have different : m ≠ n := by
      rintro rfl
      rw [internal] at isLeaf
      cases isLeaf
    rw [set.nodes, Function.update_of_ne different]
    exact leaves m inTree isLeaf

end Tree

namespace Cache

variable {cfg : CacheConfig} {held : List NodeId} {c c' : Cache} {x : NodeId} {t : Tree}
  {pageSize : Nat}

/-! ### Mamba states -/

section

variable (inv : c.tree.Inv cfg.pageSize held)

include inv

theorem Evicts.getLruNoLock {kvs : List NodeId} (evicts : Evicts cfg c kvs [x] c')
    (found : c.tree.getLruNoLock = some x) :
    Recency.newerThan (c.tree.unlocked .mamba) c.tree.mambaLruList x = c'.tree.getLruNoLock := by
  apply Recency.newerThan_eq_oldest inv.mambas.nodup found
  have sameLocks : c'.tree.unlocked .mamba = c.tree.unlocked .mamba := by
    funext n
    rw [Tree.unlocked, Tree.unlocked, evicts.mambaLockRef]
  rw [evicts.mamba, sameLocks, erase_eq_filter (inv.mambas.nodup.filter _), filter_filter,
    filter_filter]
  apply filter_congr
  intro n _
  rw [Bool.and_comm]

theorem evicts_state {slot : Nat} {t' : Tree} (listed : x ∈ c.tree.mambaLruList)
    (unlocked : (c.tree.nodes x).mambaLockRef = 0) (state : (c.tree.nodes x).mambaValue = some slot)
    (set : c.tree.MambaSet x none t') (full : t'.fullLruList = c.tree.fullLruList)
    (mamba : t'.mambaLruList = c.tree.mambaLruList.erase x) :
    Evicts cfg c [] [x] { c.freeMamba slot with tree := t' } where
  parent := set.sameTree.parent
  key := set.sameTree.key
  value := set.sameTree.value
  fullLockRef := set.fullLockRef
  mambaLockRef := set.mambaLockRef
  states := by
    intro n spared
    simp only [set.nodes]
    rw [Function.update_of_ne (fun same => spared (mem_singleton.mpr same))]
  full := full.trans (filter_eq_self.mpr (fun _ _ => by simp)).symm
  mamba := mamba.trans (erase_eq_filter inv.mambas.nodup x)
  insideKv := forall_mem_nil _
  insideMamba := forall_mem_singleton.mpr listed
  unlockedKv := forall_mem_nil _
  unlockedMamba := forall_mem_singleton.mpr unlocked
  distinctKv := nodup_nil
  distinctMamba := nodup_singleton x
  pages := rfl
  slots := by
    rw [filterMap_cons, state]
    rfl

theorem evictMambaNode_ok (leaves : c.tree.Leaves) (found : c.tree.getLruNoLock = some x) :
    ∃ kvs c', evictMambaNode cfg c x = .ok (1, c'.tree.getLruNoLock, c') ∧
      Evicts cfg c kvs [x] c' ∧ c'.tree.Inv cfg.pageSize held ∧ c'.tree.Leaves := by
  obtain ⟨listed, free⟩ := Recency.oldest_some found
  have unlocked : (c.tree.nodes x).mambaLockRef = 0 := by simpa [Tree.unlocked] using free
  obtain ⟨member, hasState⟩ := (inv.mambas.listed x).mp listed
  obtain ⟨slot, state⟩ := Option.isSome_iff_exists.mp hasState
  have notRoot := inv.shape.forest.ne_root member
  rw [evictMambaNode, state]
  simp only [check_ok _ (decide_eq_true notRoot),
    check_ok (.mambaInUse x) (beq_iff_eq.mpr unlocked), bind, Except.bind]
  cases leaf : c.tree.isLeaf x with
  | true =>
    have fullUnlocked := (inv.leaf_lock member leaf).trans unlocked
    obtain ⟨tombstones, last, c', evicted, evictsLeaf⟩ :=
      evictLeafNode_ok true inv leaves member leaf fullUnlocked
    simp only [evicted, evictsLeaf.evicts.getLruNoLock inv found]
    exact ⟨x :: tombstones, c', rfl, evictsLeaf.evicts, evictsLeaf.inv, evictsLeaf.leaves⟩
  | false =>
    obtain ⟨t₁, t', fromList, tombstoned, set, full, mamba, inv', leaves'⟩ :=
      Tree.tombstoneInternalNode_ok inv leaves listed unlocked leaf
    have evicts := evicts_state inv listed unlocked state set full mamba
    have next : (c.freeMamba slot).tree.getPrevNoLock x = .ok _ := Tree.getPrevNoLock_ok listed
    have unlisted : (c.freeMamba slot).tree.removeNode .mamba x = .ok t₁ := fromList
    simp only [next, unlisted, tombstoned]
    refine ⟨[], { c.freeMamba slot with tree := t' }, ?_, evicts, inv', leaves'⟩
    rw [← evicts.getLruNoLock inv found]
    rfl

end

theorem evictMambaLoop_ok {mambaNum : Int} {fuel : Nat} (evicted : Nat)
    (inv : c.tree.Inv cfg.pageSize held) (leaves : c.tree.Leaves)
    (enough : c.tree.mambaLruList.length ≤ fuel) (below : evicted ≤ mambaNum) :
    ∃ kvs mambas c', evictMambaLoop cfg mambaNum fuel c.tree.getLruNoLock evicted c =
        .ok (evicted + mambas.length, c') ∧
      Evicts cfg c kvs mambas c' ∧ c'.tree.Inv cfg.pageSize held ∧ c'.tree.Leaves ∧
      evicted + mambas.length ≤ mambaNum ∧
      (evicted + mambas.length = mambaNum ∨ c'.tree.getLruNoLock = none) := by
  induction fuel generalizing c evicted with
  | zero =>
    have empty : c.tree.mambaLruList = [] := length_eq_zero_iff.mp (Nat.le_zero.mp enough)
    have nothing : c.tree.getLruNoLock = none := by
      rw [Tree.getLruNoLock, empty]
      rfl
    refine ⟨[], [], c, ?_, .refl cfg c, inv, leaves, by simpa using below, .inr nothing⟩
    rw [nothing]
    rfl
  | succ fuel ih =>
    cases found : c.tree.getLruNoLock with
    | none =>
      exact ⟨[], [], c, by rw [evictMambaLoop]; rfl, .refl cfg c, inv, leaves, by simpa using below,
        .inr found⟩
    | some x =>
      obtain ⟨listed, -⟩ := Recency.oldest_some found
      rw [evictMambaLoop]
      by_cases more : (evicted : Int) < mambaNum
      · rw [if_pos ⟨more, listed⟩]
        obtain ⟨kvs, next, evictsOne, first, inv', leaves'⟩ := evictMambaNode_ok inv leaves found
        -- the victim has left the list whose length is the fuel
        have shorter : next.tree.mambaLruList.length ≤ fuel := by
          rw [first.mamba, ← erase_eq_filter inv.mambas.nodup, length_erase_of_mem listed]
          omega
        obtain ⟨kvs', mambas, c', loops, rest, inv'', leaves'', bounded, ends⟩ :=
          ih (evicted + 1) inv' leaves' shorter (by omega)
        refine ⟨kvs ++ kvs', x :: mambas, c', ?_, first.trans rest, inv'', leaves'', ?_, ?_⟩
        · simp only [evictsOne, bind, Except.bind, loops, length_cons]
          rw [Nat.add_assoc, Nat.add_comm 1]
        · rw [length_cons]
          omega
        · refine ends.imp_left fun done => ?_
          rw [length_cons]
          omega
      · rw [if_neg (fun both => more both.1)]
        refine ⟨[], [], c, rfl, .refl cfg c, inv, leaves, by simpa using below, .inl ?_⟩
        rw [length_nil]
        omega

/-! ### KV indices -/

theorem evictFullNode_ok (inv : c.tree.Inv cfg.pageSize held) (leaves : c.tree.Leaves)
    (found : c.tree.getLeafLruNoLock = some x) :
    ∃ tombstones c', evictFullNode cfg c x =
        .ok (c.tokensOf (x :: tombstones), c'.tree.getLeafLruNoLock, c') ∧
      Evicts cfg c (x :: tombstones) [x] c' ∧ c'.tree.Inv cfg.pageSize held ∧ c'.tree.Leaves := by
  obtain ⟨member, evictable⟩ := Recency.oldest_some found
  obtain ⟨unlocked, leaf⟩ : (c.tree.nodes x).fullLockRef = 0 ∧ c.tree.isLeaf x = true := by
    simpa [Tree.evictableLeaf, Tree.unlocked] using evictable
  have notRoot := inv.shape.forest.ne_root member
  obtain ⟨tombstones, last, c', evicted, evictsLeaf⟩ :=
    evictLeafNode_ok false inv leaves member leaf unlocked
  refine ⟨tombstones, c', ?_, evictsLeaf.evicts, evictsLeaf.inv, evictsLeaf.leaves⟩
  rw [evictFullNode, check_ok _ (decide_eq_true notRoot)]
  simp only [evicted, bind, Except.bind]
  -- the cached next leaf is right unless the last deletion has made a new leaf
  cases newLeaf : c'.tree.isLeaf (c'.tree.nodes last).parent with
  | true => rw [if_pos rfl]
  | false =>
    rw [Recency.newerThan_eq_oldest inv.shape.forest.nodup found
      (evictsLeaf.rest newLeaf)]
    rfl

theorem evictFullLoop_ok {fullNumTokens : Int} {fuel : Nat} (evicted : Nat)
    (inv : c.tree.Inv cfg.pageSize held) (leaves : c.tree.Leaves)
    (enough : c.tree.fullLruList.length ≤ fuel) :
    ∃ kvs mambas c', evictFullLoop cfg fullNumTokens fuel c.tree.getLeafLruNoLock evicted c =
        .ok (evicted + c.tokensOf kvs, c') ∧
      Evicts cfg c kvs mambas c' ∧ c'.tree.Inv cfg.pageSize held ∧ c'.tree.Leaves ∧
      (fullNumTokens ≤ evicted + c.tokensOf kvs ∨ c'.tree.getLeafLruNoLock = none) := by
  induction fuel generalizing c evicted with
  | zero =>
    have empty : c.tree.fullLruList = [] := length_eq_zero_iff.mp (Nat.le_zero.mp enough)
    have nothing : c.tree.getLeafLruNoLock = none := by
      rw [Tree.getLeafLruNoLock, empty]
      rfl
    refine ⟨[], [], c, ?_, .refl cfg c, inv, leaves, .inr nothing⟩
    rw [nothing]
    rfl
  | succ fuel ih =>
    cases found : c.tree.getLeafLruNoLock with
    | none =>
      refine ⟨[], [], c, ?_, .refl cfg c, inv, leaves, .inr found⟩
      rw [evictFullLoop]
      rfl
    | some x =>
      obtain ⟨member, -⟩ := Recency.oldest_some found
      rw [evictFullLoop]
      by_cases more : (evicted : Int) < fullNumTokens
      · rw [if_pos ⟨more, member⟩]
        obtain ⟨tombstones, next, evictsOne, first, inv', leaves'⟩ :=
          evictFullNode_ok inv leaves found
        have shorter : next.tree.fullLruList.length ≤ fuel := by
          have fewer : next.tree.fullLruList.length < c.tree.fullLruList.length := by
            rw [first.full]
            apply length_filter_lt_length_iff_exists.mpr
            exact ⟨x, member, by simp⟩
          omega
        obtain ⟨kvs, mambas, c', loops, rest, inv'', leaves'', ends⟩ :=
          ih (evicted + c.tokensOf (x :: tombstones)) inv' leaves' shorter
        -- evictions leave the values of the nodes alone
        have counted : evicted + c.tokensOf (x :: tombstones) + next.tokensOf kvs =
            evicted + c.tokensOf (x :: tombstones ++ kvs) := by
          rw [first.tokensOf, Nat.add_assoc, tokensOf, tokensOf, tokensOf, ← tally_append]
        refine ⟨x :: tombstones ++ kvs, x :: mambas, c', ?_, first.trans rest, inv'', leaves'', ?_⟩
        · simp only [evictsOne, bind, Except.bind, loops, counted]
        · refine ends.imp_left fun done => ?_
          omega
      · rw [if_neg (fun both => more both.1)]
        refine ⟨[], [], c, rfl, .refl cfg c, inv, leaves, .inl ?_⟩
        omega

/-! ### How much is evicted -/

theorem fullEvictable_eq (sizes : t.Sizes) :
    t.fullEvictableSize = (tally t.fullLruList (fun n =>
      if (t.nodes n).fullLockRef = 0 then (t.nodes n).value.length else 0) : Nat) :=
  sizes .fullEvictable

theorem mambaEvictable_eq (inv : t.Inv pageSize held) :
    t.mambaEvictableSize = (tally t.mambaLruList (fun n =>
      if (t.nodes n).mambaLockRef = 0 then 1 else 0) : Nat) := by
  have same : (t.fullLruList.filter fun n => (t.nodes n).mambaValue.isSome).Perm
      t.mambaLruList := by
    apply (perm_ext_iff_of_nodup (inv.shape.forest.nodup.filter _) inv.mambas.nodup).mpr
    intro n
    rw [mem_filter, inv.mambas.listed]
  have sum := inv.sizes .mambaEvictable
  rw [Tree.size] at sum
  rw [sum, ← tally_perm same, tally_filter]
  congr 1
  apply tally_congr
  intro n _
  simp only [Load.counted, TreeNode.load]
  by_cases hasState : (t.nodes n).mambaValue.isSome = true
  · simp [hasState]
  · simp [hasState]

namespace Evicts

variable {kvs mambas : List NodeId}

theorem fullEvictable (evicts : Evicts cfg c kvs mambas c') (inv : c.tree.Inv cfg.pageSize held)
    (inv' : c'.tree.Inv cfg.pageSize held) :
    c'.tree.fullEvictableSize + c.tokensOf kvs = c.tree.fullEvictableSize := by
  have after := fullEvictable_eq inv'.sizes
  simp only [evicts.full, evicts.fullLockRef, evicts.value] at after
  have parts := tally_filter_notMem inv.shape.forest.nodup evicts.distinctKv
    evicts.insideKv (fun n =>
      if (c.tree.nodes n).fullLockRef = 0 then (c.tree.nodes n).value.length else 0)
  have taken : tally kvs (fun n =>
      if (c.tree.nodes n).fullLockRef = 0 then (c.tree.nodes n).value.length else 0) =
      c.tokensOf kvs := by
    apply tally_congr
    intro n victim
    rw [if_pos (evicts.unlockedKv n victim)]
  rw [after, fullEvictable_eq inv.sizes, ← parts, taken]
  rfl

theorem mambaEvictable (evicts : Evicts cfg c kvs mambas c') (inv : c.tree.Inv cfg.pageSize held)
    (inv' : c'.tree.Inv cfg.pageSize held) :
    c'.tree.mambaEvictableSize + mambas.length = c.tree.mambaEvictableSize := by
  have after := mambaEvictable_eq inv'
  simp only [evicts.mamba, evicts.mambaLockRef] at after
  have parts := tally_filter_notMem inv.mambas.nodup evicts.distinctMamba
    evicts.insideMamba (fun n =>
      if (c.tree.nodes n).mambaLockRef = 0 then 1 else 0)
  have taken : tally mambas (fun n => if (c.tree.nodes n).mambaLockRef = 0 then 1 else 0) =
      mambas.length := by
    rw [tally_congr (g := fun _ => 1) (fun n victim => if_pos (evicts.unlockedMamba n victim)),
      tally, map_const', sum_replicate_nat, Nat.mul_one]
  rw [after, mambaEvictable_eq inv, ← parts, taken]
  rfl

end Evicts

theorem mambaEvictable_zero (inv : t.Inv pageSize held) (nothing : t.getLruNoLock = none) :
    t.mambaEvictableSize = 0 := by
  rw [mambaEvictable_eq inv, tally_eq_zero_iff.mpr]
  · rfl
  · intro n listed
    have locked := Recency.oldest_none_iff.mp nothing n listed
    rw [if_neg (by simpa [Tree.unlocked] using locked)]

theorem fullEvictable_zero (inv : t.Inv pageSize held) (nothing : t.getLeafLruNoLock = none) :
    t.fullEvictableSize = 0 := by
  rw [fullEvictable_eq inv.sizes, tally_eq_zero_iff.mpr]
  · rfl
  intro n member
  rw [if_neg]
  intro unlocked
  -- below an unlocked node there is an unlocked leaf
  obtain ⟨leaf, inTree, leafUnlocked, childless⟩ :=
    inv.locks.flow.exists_zero_leaf inv.shape.forest member unlocked
  have isLeaf := (inv.shape.isLeaf_iff (.inr inTree)).mpr childless
  have passed := Recency.oldest_none_iff.mp nothing leaf inTree
  simp [Tree.evictableLeaf, Tree.unlocked, leafUnlocked, isLeaf] at passed

theorem evictMamba_ok (mambaNum : Int) (enabled : cfg.disable = false)
    (inv : c.tree.Inv cfg.pageSize held) (leaves : c.tree.Leaves) :
    ∃ kvs mambas c', evictMamba cfg c mambaNum = .ok (mambas.length, c') ∧
      Evicts cfg c kvs mambas c' ∧ c'.tree.Inv cfg.pageSize held ∧ c'.tree.Leaves ∧
      mambas.length = (min mambaNum c.tree.mambaEvictableSize).toNat := by
  rw [evictMamba, enabled]
  split
  · next none =>
    refine ⟨[], [], c, rfl, .refl cfg c, inv, leaves, ?_⟩
    have nothing : mambaNum ≤ 0 := by simpa using none
    rw [length_nil]
    omega
  · next some =>
    have positive : 0 < mambaNum := by simpa using some
    obtain ⟨kvs, mambas, c', loops, evicts, inv', leaves', bounded, ends⟩ :=
      evictMambaLoop_ok 0 inv leaves (Nat.le_refl _) (Int.le_of_lt positive)
    rw [Nat.zero_add] at loops
    refine ⟨kvs, mambas, c', loops, evicts, inv', leaves', ?_⟩
    have balance := evicts.mambaEvictable inv inv'
    have nonneg' := mambaEvictable_eq inv'
    rcases ends with done | nothing
    · omega
    · have zero := mambaEvictable_zero inv' nothing
      omega

theorem evictFull_ok (fullNumTokens : Int) (enabled : cfg.disable = false)
    (inv : c.tree.Inv cfg.pageSize held) (leaves : c.tree.Leaves) :
    ∃ kvs mambas c', evictFull cfg c fullNumTokens = .ok (c.tokensOf kvs, c') ∧
      Evicts cfg c kvs mambas c' ∧ c'.tree.Inv cfg.pageSize held ∧ c'.tree.Leaves ∧
      min fullNumTokens c.tree.fullEvictableSize ≤ c.tokensOf kvs := by
  rw [evictFull, enabled]
  split
  · next none =>
    refine ⟨[], [], c, rfl, .refl cfg c, inv, leaves, ?_⟩
    have nothing : fullNumTokens ≤ 0 := by simpa using none
    omega
  · next some =>
    obtain ⟨kvs, mambas, c', loops, evicts, inv', leaves', ends⟩ :=
      evictFullLoop_ok 0 inv leaves (Nat.le_refl _)
    rw [Nat.zero_add] at loops
    refine ⟨kvs, mambas, c', loops, evicts, inv', leaves', ?_⟩
    have balance := evicts.fullEvictable inv inv'
    rcases ends with done | nothing
    · omega
    · have zero := fullEvictable_zero inv' nothing
      omega

end Cache

end Engram.Radix
