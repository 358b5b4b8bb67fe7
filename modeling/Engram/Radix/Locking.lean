import Engram.Radix.Invariant

/-!
# Taking and releasing locks

`inc_lock_ref` on a node with a Mamba state, or on the root, adds the node to the locks in force;
`dec_lock_ref` takes it out again. Neither fails (`incLockRef_spec`, `decLockRef_spec`).
-/

namespace Engram.Radix

open Lib List Function

namespace Tree

variable {pageSize fuel : Nat} {held chain : List NodeId} {t t' : Tree} {n : NodeId}

structure Relocked (t : Tree) (full mamba : NodeId → Nat) (t' : Tree) : Prop where
  nodes : ∀ n, t'.nodes n = { t.nodes n with fullLockRef := full n, mambaLockRef := mamba n }
  nextId : t'.nextId = t.nextId
  fullLruList : t'.fullLruList = t.fullLruList
  mambaLruList : t'.mambaLruList = t.mambaLruList

namespace Relocked

variable {full mamba full' mamba' : NodeId → Nat}

theorem sameTree (relocked : t.Relocked full mamba t') : SameTree t t' := by
  refine ⟨relocked.nextId, relocked.fullLruList ▸ .refl _, ?_, ?_, ?_, ?_⟩ <;> intro n <;>
    rw [relocked.nodes]

theorem trans {t'' : Tree} (first : t.Relocked full mamba t')
    (second : t'.Relocked full' mamba' t'') : t.Relocked full' mamba' t'' where
  nodes := by
    intro n
    rw [second.nodes, first.nodes]
  nextId := second.nextId.trans first.nextId
  fullLruList := second.fullLruList.trans first.fullLruList
  mambaLruList := second.mambaLruList.trans first.mambaLruList

section

variable (relocked : t.Relocked full mamba t')

include relocked

theorem inv {held' : List NodeId} (inv : t.Inv pageSize held)
    (flow : Accumulates t.fullLruList (fun n => (t.nodes n).parent) mamba full)
    (owned : ∀ n ∈ t.fullLruList, mamba n = held'.count n) (isHeld : ∀ n ∈ held', n = rootNode ∨
      (n ∈ t.fullLruList ∧ (t.nodes n).mambaValue.isSome = true))
    (root : mamba rootNode ≤ full rootNode) (sizes : t'.Sizes) : t'.Inv pageSize held' where
  shape := relocked.sameTree.shape inv.shape
  mambas := by
    refine ⟨relocked.mambaLruList ▸ inv.mambas.nodup, ?_, ?_⟩
    · intro n
      rw [relocked.mambaLruList, relocked.fullLruList, relocked.nodes]
      exact inv.mambas.listed n
    · rw [relocked.nodes]
      exact inv.mambas.root
  locks := by
    refine ⟨?_, ?_, ?_, ?_⟩
    · simp only [relocked.nodes, relocked.fullLruList]
      exact flow
    · intro n member
      rw [relocked.nodes]
      exact owned n (relocked.fullLruList ▸ member)
    · intro n member
      rw [relocked.fullLruList, relocked.nodes]
      exact isHeld n member
    · rw [relocked.nodes]
      exact root
  sizes := sizes

theorem sizes {n : NodeId} (sizes : t.Sizes) (nodup : t.fullLruList.Nodup)
    (member : n ∈ t.fullLruList) (others : ∀ m, m ≠ n →
      full m = (t.nodes m).fullLockRef ∧ mamba m = (t.nodes m).mambaLockRef)
    (size : ∀ kind, t'.size kind + ((t.nodes n).load.counted kind : Nat) =
      t.size kind + (Load.counted
        ⟨(t.nodes n).value, (t.nodes n).mambaValue, full n, mamba n⟩ kind : Nat)) :
    t'.Sizes := by
  apply sizes.of_load (n := n) nodup (relocked.fullLruList ▸ .refl _) member
  · intro m _ different
    obtain ⟨sameFull, sameMamba⟩ := others m different
    rw [relocked.nodes, sameFull, sameMamba]
  · intro kind
    rw [relocked.nodes]
    exact size kind

theorem leaves (leaves : t.Leaves) : t'.Leaves := by
  intro n member isLeaf
  rw [relocked.sameTree.isLeaf] at isLeaf
  rw [relocked.nodes]
  exact leaves n (relocked.fullLruList ▸ member) isLeaf

end

end Relocked

/-! ### One node -/

theorem lockFull_relocked (t : Tree) (n : NodeId) :
    t.Relocked (fun m => (t.nodes m).fullLockRef + if m = n then 1 else 0)
      (fun m => (t.nodes m).mambaLockRef) (t.lockFull n) := by
  refine ⟨fun m => ?_, rfl, rfl, rfl⟩
  simp only [lockFull, modify]
  split <;> simp_all

theorem lockFull_sizes (sizes : t.Sizes) (nodup : t.fullLruList.Nodup)
    (member : n ∈ t.fullLruList) :
    (t.lockFull n).Sizes := by
  apply (t.lockFull_relocked n).sizes sizes nodup member
  · intro m different
    simp [different]
  intro kind
  by_cases free : (t.nodes n).fullLockRef = 0
  all_goals cases kind with
    | fullEvictable => simp [size, lockFull, Load.counted, TreeNode.load, free]
    | fullProtected => simp [size, lockFull, Load.counted, TreeNode.load, free]
    | mambaEvictable => rfl
    | mambaProtected => rfl

theorem lockMamba_relocked (t : Tree) (hasState : (t.nodes n).mambaValue.isSome = true) :
    t.Relocked (fun m => (t.nodes m).fullLockRef)
      (fun m => (t.nodes m).mambaLockRef + if m = n then 1 else 0) (t.lockMamba n) := by
  rw [lockMamba]
  simp only [hasState, if_true]
  refine ⟨fun m => ?_, rfl, rfl, rfl⟩
  simp only [modify]
  split <;> simp_all

theorem lockMamba_sizes (sizes : t.Sizes) (nodup : t.fullLruList.Nodup) (member : n ∈ t.fullLruList)
    (hasState : (t.nodes n).mambaValue.isSome = true) :
    (t.lockMamba n).Sizes := by
  apply (t.lockMamba_relocked hasState).sizes sizes nodup member
  · intro m different
    simp [different]
  intro kind
  simp only [lockMamba, hasState]
  by_cases free : (t.nodes n).mambaLockRef = 0
  all_goals cases kind with
    | fullEvictable => rfl
    | fullProtected => rfl
    | mambaEvictable => simp [size, Load.counted, TreeNode.load, hasState, free]
    | mambaProtected => simp [size, Load.counted, TreeNode.load, hasState, free]

theorem unlockFull_spec (locked : 0 < (t.nodes n).fullLockRef) (sizes : t.Sizes)
    (nodup : t.fullLruList.Nodup) (member : n ∈ t.fullLruList) :
    ∃ t', t.unlockFull n = .ok t' ∧ t'.Sizes ∧
      t.Relocked (fun m => (t.nodes m).fullLockRef - if m = n then 1 else 0)
        (fun m => (t.nodes m).mambaLockRef) t' := by
  rw [unlockFull, check, if_pos (by simpa using locked)]
  refine ⟨_, rfl, ?_⟩
  apply (and_iff_right_of_imp fun relocked => Relocked.sizes relocked sizes nodup member ?_ ?_).mpr
  · refine ⟨fun m => ?_, rfl, rfl, rfl⟩
    simp only [modify]
    split <;> simp_all
  · intro m different
    simp [different]
  · intro kind
    have notFree : (t.nodes n).fullLockRef ≠ 0 := Nat.ne_of_gt locked
    have last : (t.nodes n).fullLockRef - 1 = 0 ↔ (t.nodes n).fullLockRef = 1 := by omega
    cases kind with
    | fullEvictable =>
      simp only [size, Load.counted, TreeNode.load, if_true, last, notFree]
      split <;> simp
    | fullProtected =>
      simp only [size, Load.counted, TreeNode.load, if_true, last, notFree]
      split <;> simp
    | mambaEvictable => rfl
    | mambaProtected => rfl

theorem unlockMamba_spec (hasState : (t.nodes n).mambaValue.isSome = true)
    (locked : 0 < (t.nodes n).mambaLockRef) (sizes : t.Sizes) (nodup : t.fullLruList.Nodup)
    (member : n ∈ t.fullLruList) :
    ∃ t', t.unlockMamba n = .ok t' ∧ t'.Sizes ∧
      t.Relocked (fun m => (t.nodes m).fullLockRef)
        (fun m => (t.nodes m).mambaLockRef - if m = n then 1 else 0) t' := by
  rw [unlockMamba]
  simp only [hasState, if_true]
  rw [check, if_pos (by simpa using locked)]
  refine ⟨_, rfl, ?_⟩
  apply (and_iff_right_of_imp fun relocked => Relocked.sizes relocked sizes nodup member ?_ ?_).mpr
  · refine ⟨fun m => ?_, rfl, rfl, rfl⟩
    simp only [modify]
    split <;> simp_all
  · intro m different
    simp [different]
  · intro kind
    have notFree : (t.nodes n).mambaLockRef ≠ 0 := Nat.ne_of_gt locked
    have last : (t.nodes n).mambaLockRef - 1 = 0 ↔ (t.nodes n).mambaLockRef = 1 := by omega
    cases kind with
    | fullEvictable => rfl
    | fullProtected => rfl
    | mambaEvictable =>
      simp only [size, Load.counted, TreeNode.load, hasState, if_true, last, true_and]
      split <;> simp
    | mambaProtected =>
      simp only [size, Load.counted, TreeNode.load, hasState, if_true, last, true_and, ne_eq]
      split <;> simp

/-! ### The way to the root -/

/-- The nodes that the loops of the locks pass. -/
def wayUp (t : Tree) : Nat → NodeId → Option (List NodeId) :=
  climb rootNode (fun n => (t.nodes n).parent)

theorem Relocked.climb_iff {full mamba : NodeId → Nat} (relocked : t.Relocked full mamba t') :
    t'.wayUp fuel n = some chain ↔ t.wayUp fuel n = some chain := by
  rw [wayUp, wayUp, funext relocked.sameTree.parent]

theorem lockLoop_spec (sizes : t.Sizes) (nodup : t.fullLruList.Nodup)
    (inside : ∀ m ∈ chain, m ∈ t.fullLruList) (climbed : t.wayUp fuel n = some chain) :
    ∃ t', lockLoop fuel n t = .ok t' ∧ t'.Sizes ∧
      t.Relocked (fun m => (t.nodes m).fullLockRef + chain.count m)
        (fun m => (t.nodes m).mambaLockRef) t' := by
  induction chain generalizing n t fuel with
  | nil =>
    obtain rfl := Forest.climb_nil climbed
    exact ⟨t, by cases fuel <;> rfl, sizes, fun _ => rfl, rfl, rfl, rfl⟩
  | cons n rest ih =>
    obtain ⟨rfl, isRoot, fuel, rfl, above⟩ := Forest.climb_cons climbed
    have first := t.lockFull_relocked n
    have member := inside n mem_cons_self
    -- the loop goes on from the parent, in a tree with the same parents
    obtain ⟨t', locked, sizes', second⟩ := ih (t := t.lockFull n)
      (lockFull_sizes sizes nodup member) nodup
      (fun m inRest => inside m (mem_cons_of_mem _ inRest)) (first.climb_iff.mpr above)
    rw [lockLoop, if_neg isRoot]
    refine ⟨t', locked, sizes', ?_⟩
    have both := first.trans second
    refine ⟨?_, both.nextId, both.fullLruList, both.mambaLruList⟩
    intro m
    simp only [both.nodes, first.nodes, count_cons, Nat.add_assoc, beq_iff_eq, eq_comm (a := n),
      Nat.add_comm (rest.count m)]

theorem unlockLoop_spec (sizes : t.Sizes) (nodup : t.fullLruList.Nodup)
    (inside : ∀ m ∈ chain, m ∈ t.fullLruList) (distinct : chain.Nodup)
    (locked : ∀ m ∈ chain, 0 < (t.nodes m).fullLockRef) (climbed : t.wayUp fuel n = some chain) :
    ∃ t', unlockLoop fuel n t = .ok t' ∧ t'.Sizes ∧
      t.Relocked (fun m => (t.nodes m).fullLockRef - chain.count m)
        (fun m => (t.nodes m).mambaLockRef) t' := by
  induction chain generalizing n t fuel with
  | nil =>
    obtain rfl := Forest.climb_nil climbed
    exact ⟨t, by cases fuel <;> rfl, sizes, fun _ => rfl, rfl, rfl, rfl⟩
  | cons n rest ih =>
    obtain ⟨rfl, isRoot, fuel, rfl, above⟩ := Forest.climb_cons climbed
    obtain ⟨notInRest, distinctRest⟩ := nodup_cons.mp distinct
    obtain ⟨next, unlocked, nextSizes, first⟩ := unlockFull_spec (locked n mem_cons_self)
      sizes nodup (inside n mem_cons_self)
    obtain ⟨t', done, sizes', second⟩ := ih (t := next) nextSizes
      (first.fullLruList ▸ nodup)
      (fun m inRest => first.fullLruList ▸ inside m (mem_cons_of_mem _ inRest))
      distinctRest (by
        intro m inRest
        have different : m ≠ n := fun same => notInRest (same ▸ inRest)
        simp only [first.nodes, if_neg different]
        exact locked m (mem_cons_of_mem _ inRest)) (first.climb_iff.mpr above)
    rw [unlockLoop, if_neg isRoot, unlocked]
    refine ⟨t', done, sizes', ?_⟩
    have both := first.trans second
    refine ⟨?_, both.nextId, both.fullLruList, both.mambaLruList⟩
    intro m
    simp only [both.nodes, first.nodes, count_cons, Nat.sub_sub, beq_iff_eq, eq_comm (a := n),
      Nat.add_comm (rest.count m)]

/-! ### `inc_lock_ref` and `dec_lock_ref` -/

def Lockable (t : Tree) (n : NodeId) : Prop :=
  n = rootNode ∨ (n ∈ t.fullLruList ∧ (t.nodes n).mambaValue.isSome = true)
deriving Decidable

section

variable (inv : t.Inv pageSize held)

include inv

theorem Inv.rehold_root {held' : List NodeId}
    (counts : ∀ n, n ≠ rootNode → held'.count n = held.count n) : t.Inv pageSize held' where
  shape := inv.shape
  mambas := inv.mambas
  locks := by
    refine ⟨inv.locks.flow, ?_, ?_, inv.locks.root⟩
    · intro n member
      rw [counts n (inv.shape.forest.ne_root member)]
      exact inv.locks.owned n member
    intro n isHeld
    by_cases isRoot : n = rootNode
    · exact .inl isRoot
    · apply inv.locks.held
      rw [← count_pos_iff, ← counts n isRoot]
      exact count_pos_iff.mpr isHeld
  sizes := inv.sizes

theorem incLockRef_root : t.incLockRef rootNode = .ok t := by
  rw [incLockRef, lockMamba]
  simp only [inv.mambas.root]
  cases t.fullLruList.length <;> rfl

theorem decLockRef_root : t.decLockRef rootNode = .ok t := by
  rw [decLockRef, unlockMamba]
  simp only [inv.mambas.root]
  cases t.fullLruList.length <;> rfl

theorem incLockRef_spec (lockable : t.Lockable n) :
    ∃ t' full mamba, t.incLockRef n = .ok t' ∧ t'.Inv pageSize (n :: held) ∧
      t.Relocked full mamba t' := by
  rcases lockable with rfl | ⟨member, hasState⟩
  · refine ⟨t, _, _, incLockRef_root inv, ?_, fun _ => rfl, rfl, rfl, rfl⟩
    apply inv.rehold_root
    intro n notRoot
    rw [count_cons, if_neg (by simpa using notRoot.symm), Nat.add_zero]
  obtain ⟨chain, climbed⟩ := inv.shape.forest.exists_climb (.inr member) (Nat.le_refl _)
  obtain ⟨-, inside⟩ := inv.shape.forest.chain_members (.inr member) climbed
  have first := t.lockMamba_relocked hasState
  have firstSizes := lockMamba_sizes inv.sizes inv.shape.forest.nodup member hasState
  have sameList := first.fullLruList
  obtain ⟨t', locked, sizes', second⟩ := lockLoop_spec firstSizes
    (sameList ▸ inv.shape.forest.nodup) (sameList ▸ inside) (first.climb_iff.mpr climbed)
  refine ⟨t', _, _, locked, ?_, first.trans second⟩
  -- one lock more at the node, counted by all nodes on the way up
  apply (first.trans second).inv inv
  · refine (Accumulates.raise_iff inv.shape.forest member climbed ?_ ?_).mpr inv.locks.flow
    · intro m _
      simp only [first.nodes]
    · intro m _
      simp only [first.nodes]
  · intro m inTree
    simp only [first.nodes, inv.locks.owned m inTree, count_cons, beq_iff_eq, eq_comm (a := n)]
  · intro m isHeld
    rcases mem_cons.mp isHeld with rfl | old
    · exact .inr ⟨member, hasState⟩
    · exact inv.locks.held m old
  · have notRoot := inv.shape.forest.ne_root member
    simp only [first.nodes, if_neg notRoot.symm]
    exact Nat.le_add_right_of_le inv.locks.root
  · exact sizes'

theorem Inv.chain_locked (isHeld : n ∈ held) (climbed : t.wayUp fuel n = some chain) :
    ∀ m ∈ chain, 0 < (t.nodes m).fullLockRef := by
  apply inv.locks.flow.chain_pos inv.shape.forest (inv.held_has isHeld) _ climbed
  intro member
  have counted := inv.locks.flow.own_le member
  have owned := inv.locks.owned n member
  have positive := count_pos_iff.mpr isHeld
  omega

theorem decLockRef_spec (isHeld : n ∈ held) :
    ∃ t' full mamba, t.decLockRef n = .ok t' ∧ t'.Inv pageSize (held.erase n) ∧
      t.Relocked full mamba t' := by
  rcases inv.locks.held n isHeld with rfl | ⟨member, hasState⟩
  · refine ⟨t, _, _, decLockRef_root inv, ?_, fun _ => rfl, rfl, rfl, rfl⟩
    apply inv.rehold_root
    intro n notRoot
    rw [count_erase_of_ne notRoot]
  have mambaLocked : 0 < (t.nodes n).mambaLockRef := by
    rw [inv.locks.owned n member]
    exact count_pos_iff.mpr isHeld
  obtain ⟨chain, climbed⟩ := inv.shape.forest.exists_climb (.inr member) (Nat.le_refl _)
  obtain ⟨distinct, inside⟩ := inv.shape.forest.chain_members (.inr member) climbed
  have fullLocked := inv.chain_locked isHeld climbed
  obtain ⟨middle, unlocked, middleSizes, first⟩ :=
    unlockMamba_spec hasState mambaLocked inv.sizes inv.shape.forest.nodup member
  have sameList := first.fullLruList
  obtain ⟨t', done, sizes', second⟩ := unlockLoop_spec middleSizes
    (sameList ▸ inv.shape.forest.nodup) (sameList ▸ inside) distinct
    (by simpa only [first.nodes] using fullLocked) (first.climb_iff.mpr climbed)
  refine ⟨t', _, _, ?_, ?_, first.trans second⟩
  · rw [decLockRef, unlocked]
    exact done
  apply (first.trans second).inv inv
  · -- the counts before are the counts after, raised along the way up
    refine (Accumulates.raise_iff inv.shape.forest member climbed ?_ ?_).mp inv.locks.flow
    · intro m _
      simp only [first.nodes]
      split
      · next same => subst same; omega
      · rfl
    intro m _
    simp only [first.nodes]
    by_cases onWay : m ∈ chain
    · have positive := fullLocked m onWay
      rw [count_eq_one_of_mem distinct onWay]
      omega
    · rw [count_eq_zero_of_not_mem onWay]
      rfl
  · intro m inTree
    simp only [first.nodes, inv.locks.owned m inTree, count_erase, beq_iff_eq, eq_comm (a := n)]
  · intro m stillHeld
    exact inv.locks.held m (mem_of_mem_erase stillHeld)
  · have offWay : rootNode ∉ chain := fun onWay => inv.shape.forest.root_out (inside _ onWay)
    simp only [first.nodes, count_eq_zero_of_not_mem offWay]
    exact Nat.le_trans (Nat.sub_le ..) inv.locks.root
  · exact sizes'

end

end Tree

end Engram.Radix
