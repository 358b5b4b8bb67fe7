import Engram.Radix.Changes

/-!
# The invariant of the tree

Besides its shape: which nodes the LRU lists hold, what the locks count, and what the four sizes
sum up. A lock counts at its node and at every node above it, so the count of a node is the number
of locks on it and the counts of its children. Every change keeps the invariant. Leaves have a
Mamba state; this is kept apart, since it does not hold between the deletion of a leaf and that of
the tombstones above it.
-/

namespace Engram.Radix

open Lib List

/-- What a node holds. -/
structure Load where
  value : List Nat
  mambaValue : Option Nat
  fullLockRef : Nat
  mambaLockRef : Nat

def TreeNode.load (node : TreeNode) : Load :=
  ⟨node.value, node.mambaValue, node.fullLockRef, node.mambaLockRef⟩

/-- What a node adds to each of the sizes. -/
def Load.counted (l : Load) : SizeKind → Nat
  | .fullEvictable => if l.fullLockRef = 0 then l.value.length else 0
  | .fullProtected => if l.fullLockRef = 0 then 0 else l.value.length
  | .mambaEvictable => if l.mambaValue.isSome ∧ l.mambaLockRef = 0 then 1 else 0
  | .mambaProtected => if l.mambaValue.isSome ∧ l.mambaLockRef ≠ 0 then 1 else 0

/-- The two halves of a split node weigh together what the node weighed. -/
def Load.Divides (w : Load → Nat) : Prop :=
  ∀ (l : Load) (k : Nat), w l =
    w { l with value := l.value.drop k } + w ⟨l.value.take k, none, l.fullLockRef, 0⟩

theorem Load.counted_divides (kind : SizeKind) : Load.Divides (Load.counted · kind) := by
  rintro ⟨value, mambaValue, fullLockRef, mambaLockRef⟩ k
  have parts : value.length = (value.drop k).length + (value.take k).length := by
    rw [Nat.add_comm, ← length_append, take_append_drop]
  cases kind with
  | fullEvictable =>
    simp only [counted, parts]
    split <;> rfl
  | fullProtected =>
    simp only [counted, parts]
    split <;> rfl
  | mambaEvictable => simp [counted]
  | mambaProtected => simp [counted]

namespace Tree

/-- A sum over the nodes of the tree without the root. -/
def sum (t : Tree) (w : Load → Nat) : Nat :=
  tally t.fullLruList (fun n => w (t.nodes n).load)

structure Mambas (t : Tree) : Prop where
  nodup : t.mambaLruList.Nodup
  listed : ∀ n, n ∈ t.mambaLruList ↔ n ∈ t.fullLruList ∧ (t.nodes n).mambaValue.isSome = true
  root : (t.nodes rootNode).mambaValue = none

structure Locks (held : List NodeId) (t : Tree) : Prop where
  flow : Accumulates t.fullLruList (fun n => (t.nodes n).parent)
    (fun n => (t.nodes n).mambaLockRef) (fun n => (t.nodes n).fullLockRef)
  owned : ∀ n ∈ t.fullLruList, (t.nodes n).mambaLockRef = held.count n
  held : ∀ n ∈ held, n = rootNode ∨
    (n ∈ t.fullLruList ∧ (t.nodes n).mambaValue.isSome = true)
  root : (t.nodes rootNode).mambaLockRef ≤ (t.nodes rootNode).fullLockRef

/-- The four sizes are sums over the unlocked and over the locked nodes. -/
def Sizes (t : Tree) : Prop :=
  ∀ kind, t.size kind = t.sum (Load.counted · kind)

def Leaves (t : Tree) : Prop :=
  ∀ n ∈ t.fullLruList, t.isLeaf n = true → (t.nodes n).mambaValue.isSome = true

structure Inv (pageSize : Nat) (held : List NodeId) (t : Tree) : Prop where
  shape : t.Shape pageSize
  mambas : t.Mambas
  locks : t.Locks held
  sizes : t.Sizes

/-! ### The empty tree -/

theorem reset_inv (pageSize : Nat) : Tree.reset.Inv pageSize [] where
  shape := by
    refine ⟨⟨nodup_nil, not_mem_nil, nofun, fun _ => 0, nofun⟩, ?_, nofun, ?_, nofun, nofun⟩
    · rintro n (rfl | member)
      · exact Nat.zero_lt_one
      · cases member
    · rintro p - k c found
      cases found
  mambas := ⟨nodup_nil, by simp [reset], rfl⟩
  locks := ⟨nofun, nofun, nofun, Nat.le_refl _⟩
  sizes := by
    intro kind
    cases kind <;> rfl

theorem reset_leaves : Tree.reset.Leaves :=
  nofun

/-! ### Sums after a change -/

section Sums

variable {pageSize : Nat} {t t' : Tree} (w : Load → Nat) {n : NodeId}

theorem Touched.sum (touched : Touched t t') : t'.sum w = t.sum w := by
  rw [Tree.sum, Tree.sum, touched.nodes, tally_perm touched.full]

theorem sum_of_load (nodup : t.fullLruList.Nodup) (full : t'.fullLruList.Perm t.fullLruList)
    (member : n ∈ t.fullLruList)
    (others : ∀ m ∈ t.fullLruList, m ≠ n → (t'.nodes m).load = (t.nodes m).load) :
    t'.sum w + w (t.nodes n).load = t.sum w + w (t'.nodes n).load := by
  rw [Tree.sum, tally_perm full]
  apply tally_change nodup member
  intro m inside different
  rw [others m inside different]

theorem Split.sum {child : NodeId} {k : Nat} (split : t.Split pageSize child k t')
    (shape : t.Shape pageSize) (divides : Load.Divides w) : t'.sum w = t.sum w := by
  have upper : (t'.nodes t.nextId).load =
      ⟨(t.nodes child).value.take k, none, (t.nodes child).fullLockRef, 0⟩ := by
    simp only [TreeNode.load, split.value, split.mambaValue, split.fullLockRef, split.mambaLockRef,
      if_true]
  have childNe := shape.ne_new (.inr split.member)
  have lower : (t'.nodes child).load =
      { (t.nodes child).load with value := (t.nodes child).value.drop k } := by
    simp only [TreeNode.load, split.value, split.mambaValue, split.fullLockRef, split.mambaLockRef,
      if_neg childNe, if_true]
  have change := tally_change (g := fun n => w (t'.nodes n).load)
    (f := fun n => w (t.nodes n).load) shape.forest.nodup split.member (by
      intro m inside different
      have notNew := shape.ne_new (.inr inside)
      simp only [TreeNode.load, split.value, split.mambaValue, split.fullLockRef,
        split.mambaLockRef, if_neg notNew, if_neg different])
  have halves := divides (t.nodes child).load k
  rw [Tree.sum, tally_perm split.full, tally_cons, Tree.sum, upper]
  rw [lower, halves] at change
  simp only [TreeNode.load] at change ⊢
  omega

theorem Grown.sum {p : NodeId} {key : RadixKey} {value : List Nat} {slot : Nat}
    (grown : t.Grown pageSize p key value slot t') (shape : t.Shape pageSize) :
    t'.sum w = t.sum w + w ⟨value, some slot, 0, 0⟩ := by
  have old : tally t.fullLruList (fun n => w (t'.nodes n).load) = t.sum w := by
    apply tally_congr
    intro n member
    obtain ⟨-, -, sameValue, sameMamba, sameFull, sameLock⟩ :=
      grown.old (shape.ne_new (.inr member))
    simp only [TreeNode.load, sameValue, sameMamba, sameFull, sameLock]
  rw [Tree.sum, tally_perm grown.full, tally_cons, old, grown.new, Nat.add_comm]
  rfl

theorem Removed.sum (removed : t.Removed pageSize n t') :
    t'.sum w + w (t.nodes n).load = t.sum w := by
  have old : tally t'.fullLruList (fun m => w (t'.nodes m).load) =
      tally (t.fullLruList.erase n) (fun m => w (t.nodes m).load) := by
    rw [removed.full]
    apply tally_congr
    intro m _
    rw [removed.field TreeNode.load (fun _ => rfl)]
  rw [Tree.sum, old, Nat.add_comm]
  exact tally_erase removed.member (fun m => w (t.nodes m).load)

end Sums

theorem Sizes.of_load {t t' : Tree} {n : NodeId} (sizes : t.Sizes) (nodup : t.fullLruList.Nodup)
    (full : t'.fullLruList.Perm t.fullLruList) (member : n ∈ t.fullLruList)
    (others : ∀ m ∈ t.fullLruList, m ≠ n → (t'.nodes m).load = (t.nodes m).load)
    (size : ∀ kind, t'.size kind + ((t.nodes n).load.counted kind : Nat) =
      t.size kind + ((t'.nodes n).load.counted kind : Nat)) : t'.Sizes := by
  intro kind
  have change := sum_of_load (Load.counted · kind) nodup full member others
  have before := sizes kind
  have follows := size kind
  omega

/-! ### The invariant after a change -/

namespace Inv

variable {pageSize : Nat} {held : List NodeId} {t t' : Tree} {n : NodeId}

section

variable (inv : t.Inv pageSize held)

include inv

theorem touched (touched : Touched t t') : t'.Inv pageSize held where
  shape := touched.sameTree.shape inv.shape
  mambas := by
    refine ⟨touched.mamba.nodup_iff.mpr inv.mambas.nodup, ?_, ?_⟩
    · intro n
      rw [touched.mamba.mem_iff, touched.full.mem_iff, touched.nodes]
      exact inv.mambas.listed n
    · rw [touched.nodes]
      exact inv.mambas.root
  locks := by
    refine ⟨?_, ?_, ?_, ?_⟩
    · rw [touched.nodes]
      exact inv.locks.flow.perm touched.full.symm
    · intro n member
      rw [touched.nodes]
      exact inv.locks.owned n (touched.full.mem_iff.mp member)
    · intro n isHeld
      rw [touched.full.mem_iff, touched.nodes]
      exact inv.locks.held n isHeld
    · rw [touched.nodes]
      exact inv.locks.root
  sizes := by
    intro kind
    rw [touched.size, touched.sum]
    exact inv.sizes kind

theorem tombstone_unlocked (member : n ∈ t.fullLruList)
    (tombstone : (t.nodes n).mambaValue = none) :
    (t.nodes n).mambaLockRef = 0 := by
  rw [inv.locks.owned n member]
  apply count_eq_zero_of_not_mem
  intro isHeld
  rcases inv.locks.held n isHeld with isRoot | ⟨-, hasState⟩
  · exact inv.shape.forest.ne_root member isRoot
  · simp [tombstone] at hasState

theorem held_has (isHeld : n ∈ held) : t.Has n :=
  (inv.locks.held n isHeld).imp_right And.left

theorem split {child : NodeId} {k : Nat} (split : t.Split pageSize child k t')
    (positive : 0 < pageSize) : t'.Inv pageSize held := by
  have childNe := inv.shape.ne_new (.inr split.member)
  have oldNe : ∀ n ∈ t.fullLruList, n ≠ t.nextId := fun n member =>
    inv.shape.ne_new (.inr member)
  refine ⟨split.shape positive inv.shape, ⟨?_, ?_, ?_⟩, ⟨?_, ?_, ?_, ?_⟩, ?_⟩
  · exact split.mamba.nodup_iff.mpr inv.mambas.nodup
  · intro n
    rw [split.mamba.mem_iff, split.full.mem_iff, split.mambaValue, inv.mambas.listed]
    by_cases isNew : n = t.nextId
    · simp [isNew, inv.shape.new_notMem]
    · simp [isNew]
  · rw [split.mambaValue, if_neg inv.shape.new_ne_root.symm]
    exact inv.mambas.root
  · -- the upper half counts what the child counts, and no lock of its own
    refine (inv.locks.flow.subdivide inv.shape.forest split.member inv.shape.new_notMem
      inv.shape.new_ne_root ?_ ?_ ?_ ?_ ?_ ?_ ?_).perm split.full.symm
    · rw [split.parent, if_pos rfl]
    · rw [split.parent, if_neg childNe, if_pos rfl]
    · intro n member different
      rw [split.parent, if_neg (oldNe n member), if_neg different]
    · rw [split.mambaLockRef, if_pos rfl]
    · rw [split.fullLockRef, if_pos rfl]
    · intro n member
      rw [split.mambaLockRef, if_neg (oldNe n member)]
    · intro n member
      rw [split.fullLockRef, if_neg (oldNe n member)]
  · intro n member
    rw [split.mambaLockRef]
    rcases mem_cons.mp (split.full.mem_iff.mp member) with rfl | old
    · rw [if_pos rfl, eq_comm]
      apply count_eq_zero_of_not_mem
      exact fun isHeld => inv.shape.ne_new (inv.held_has isHeld) rfl
    · rw [if_neg (oldNe n old)]
      exact inv.locks.owned n old
  · intro n isHeld
    rw [split.full.mem_iff, mem_cons, split.mambaValue,
      if_neg (inv.shape.ne_new (inv.held_has isHeld))]
    rcases inv.locks.held n isHeld with isRoot | ⟨member, hasState⟩
    · exact .inl isRoot
    · exact .inr ⟨.inr member, hasState⟩
  · rw [split.mambaLockRef, split.fullLockRef, if_neg inv.shape.new_ne_root.symm,
      if_neg inv.shape.new_ne_root.symm]
    exact inv.locks.root
  · intro kind
    rw [split.size, split.sum _ inv.shape (Load.counted_divides kind)]
    exact inv.sizes kind

theorem grown {p : NodeId} {key : RadixKey} {value : List Nat} {slot : Nat}
    (grown : t.Grown pageSize p key value slot t') :
    t'.Inv pageSize held := by
  have oldNe : ∀ n ∈ t.fullLruList, n ≠ t.nextId := fun n member =>
    inv.shape.ne_new (.inr member)
  have notListed : t.nextId ∉ t.mambaLruList := fun listed =>
    inv.shape.new_notMem ((inv.mambas.listed _).mp listed).1
  refine ⟨grown.shape inv.shape, ⟨?_, ?_, ?_⟩, ⟨?_, ?_, ?_, ?_⟩, ?_⟩
  · exact grown.mamba.nodup_iff.mpr (nodup_cons.mpr ⟨notListed, inv.mambas.nodup⟩)
  · intro n
    rw [grown.mamba.mem_iff, grown.full.mem_iff, mem_cons, inv.mambas.listed]
    by_cases isNew : n = t.nextId
    · simp [isNew, grown.new]
    · rw [(grown.old isNew).2.2.2.1]
      simp [isNew]
  · rw [(grown.old inv.shape.new_ne_root.symm).2.2.2.1]
    exact inv.mambas.root
  · -- the leaf is new, so no lock is on it
    refine (inv.locks.flow.graft inv.shape.forest inv.shape.new_notMem inv.shape.new_ne_root
      ?_ ?_ ?_ ?_ ?_).perm grown.full.symm
    · exact fun n member => (grown.old (oldNe n member)).1
    · rw [grown.new]
    · rw [grown.new]
    · exact fun n member => (grown.old (oldNe n member)).2.2.2.2.2
    · exact fun n member => (grown.old (oldNe n member)).2.2.2.2.1
  · intro n member
    rcases mem_cons.mp (grown.full.mem_iff.mp member) with rfl | old
    · rw [grown.new, eq_comm]
      apply count_eq_zero_of_not_mem
      exact fun isHeld => inv.shape.ne_new (inv.held_has isHeld) rfl
    · rw [(grown.old (oldNe n old)).2.2.2.2.2]
      exact inv.locks.owned n old
  · intro n isHeld
    rw [grown.full.mem_iff, mem_cons, (grown.old (inv.shape.ne_new (inv.held_has isHeld))).2.2.2.1]
    rcases inv.locks.held n isHeld with isRoot | ⟨member, hasState⟩
    · exact .inl isRoot
    · exact .inr ⟨.inr member, hasState⟩
  · obtain ⟨-, -, -, -, sameFull, sameMamba⟩ := grown.old inv.shape.new_ne_root.symm
    rw [sameFull, sameMamba]
    exact inv.locks.root
  · intro kind
    have change := grown.sum (Load.counted · kind) inv.shape
    have before := inv.sizes kind
    have added : t'.size kind = t.size kind +
        (Load.counted ⟨value, some slot, 0, 0⟩ kind : Nat) := by
      cases kind
      · exact grown.fullEvictable
      · simpa [size, Load.counted] using grown.fullProtected
      · exact grown.mambaEvictable
      · simpa [size, Load.counted] using grown.mambaProtected
    omega

/-- A tombstone is given a state, or an unlocked node loses its state. -/
theorem mambaSet {slot : Option Nat} (set : t.MambaSet n slot t') (member : n ∈ t.fullLruList)
    (unlocked : (t.nodes n).mambaLockRef = 0) (nodup : t'.mambaLruList.Nodup)
    (listed : ∀ m, m ∈ t'.mambaLruList ↔
      if m = n then slot.isSome = true else m ∈ t.mambaLruList)
    (size : ∀ kind, t'.size kind + ((t.nodes n).load.counted kind : Nat) =
      t.size kind + (Load.counted { (t.nodes n).load with mambaValue := slot } kind : Nat)) :
    t'.Inv pageSize held := by
  -- the node counts no lock of its own
  have notHeld : n ∉ held := by
    intro isHeld
    have counted := count_pos_iff.mpr isHeld
    rw [← inv.locks.owned n member] at counted
    omega
  have atN : t'.nodes n = { t.nodes n with mambaValue := slot } := by
    rw [set.nodes, Function.update_self]
  have elsewhere : ∀ m, m ≠ n → t'.nodes m = t.nodes m := by
    intro m different
    rw [set.nodes, Function.update_of_ne different]
  have same := set.sameTree
  have fullLock := set.fullLockRef
  have mambaLock := set.mambaLockRef
  refine ⟨same.shape inv.shape, ⟨nodup, ?_, ?_⟩, ⟨?_, ?_, ?_, ?_⟩, ?_⟩
  · intro m
    rw [listed, same.full.mem_iff]
    by_cases isN : m = n
    · simp [isN, atN, member]
    · rw [if_neg isN, elsewhere m isN]
      exact inv.mambas.listed m
  · rw [elsewhere _ (inv.shape.forest.ne_root member).symm]
    exact inv.mambas.root
  · simp only [funext same.parent, funext fullLock, funext mambaLock]
    exact inv.locks.flow.perm same.full.symm
  · intro m inside
    rw [mambaLock]
    exact inv.locks.owned m (same.full.mem_iff.mp inside)
  · intro m isHeld
    rw [same.full.mem_iff, elsewhere m (fun isN => notHeld (isN ▸ isHeld))]
    exact inv.locks.held m isHeld
  · rw [mambaLock, fullLock]
    exact inv.locks.root
  · apply inv.sizes.of_load inv.shape.forest.nodup same.full member
      (fun m _ different => by rw [elsewhere m different])
    intro kind
    rw [atN]
    exact size kind

theorem removed (removed : t.Removed pageSize n t') (unlocked : (t.nodes n).fullLockRef = 0)
    (size : ∀ kind, t'.size kind + ((t.nodes n).load.counted kind : Nat) = t.size kind) :
    t'.Inv pageSize held := by
  -- no lock is on the leaf or below it
  have mambaUnlocked : (t.nodes n).mambaLockRef = 0 := by
    have order := inv.locks.flow.own_le removed.member
    simp only [unlocked] at order
    exact Nat.le_zero.mp order
  have notHeld : n ∉ held := by
    intro isHeld
    have counted := count_pos_iff.mpr isHeld
    rw [← inv.locks.owned n removed.member] at counted
    omega
  have mambaValue := removed.field TreeNode.mambaValue (fun _ => rfl)
  have fullLock := removed.field TreeNode.fullLockRef (fun _ => rfl)
  have mambaLock := removed.field TreeNode.mambaLockRef (fun _ => rfl)
  refine ⟨removed.shape inv.shape, ⟨?_, ?_, ?_⟩, ⟨?_, ?_, ?_, ?_⟩, ?_⟩
  · rw [removed.mamba]
    exact inv.mambas.nodup.erase n
  · intro m
    rw [removed.mamba, inv.mambas.nodup.mem_erase_iff, inv.mambas.listed,
      removed.mem_full_iff inv.shape, mambaValue, and_assoc]
  · rw [mambaValue]
    exact inv.mambas.root
  · simp only [funext removed.parent, funext fullLock, funext mambaLock, removed.full]
    exact inv.locks.flow.prune removed.member unlocked
  · intro m inside
    rw [mambaLock]
    exact inv.locks.owned m ((removed.mem_full_iff inv.shape).mp inside).2
  · intro m isHeld
    rw [removed.mem_full_iff inv.shape, mambaValue]
    rcases inv.locks.held m isHeld with isRoot | ⟨member, hasState⟩
    · exact .inl isRoot
    · exact .inr ⟨⟨fun isN => notHeld (isN ▸ isHeld), member⟩, hasState⟩
  · rw [mambaLock, fullLock]
    exact inv.locks.root
  · intro kind
    have change := removed.sum (Load.counted · kind)
    have before := inv.sizes kind
    have follows := size kind
    omega

end

end Inv

end Tree

end Engram.Radix
