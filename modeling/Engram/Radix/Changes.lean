import Engram.Lib.Forest
import Engram.Radix.Tree

/-!
# The changes of the tree

All that the operations do to the tree is made of six changes: nodes move within the LRU lists, a
node is split, a leaf is added, a node is given a Mamba state or loses it, and a leaf is removed.
Each change is described by its effect on the fields of the nodes, and keeps the shape of the
tree.
-/

namespace Engram.Radix

open Lib List

/-- The four sizes a tree keeps. -/
inductive SizeKind where
  | fullEvictable
  | fullProtected
  | mambaEvictable
  | mambaProtected
deriving DecidableEq, Repr

namespace Tree

def Has (t : Tree) (n : NodeId) : Prop :=
  n = rootNode ∨ n ∈ t.fullLruList

def size (t : Tree) : SizeKind → Int
  | .fullEvictable => t.fullEvictableSize
  | .fullProtected => t.fullProtectedSize
  | .mambaEvictable => t.mambaEvictableSize
  | .mambaProtected => t.mambaProtectedSize

structure Shape (pageSize : Nat) (t : Tree) : Prop where
  forest : Forest t.fullLruList rootNode (fun n => (t.nodes n).parent)
  fresh : ∀ n, t.Has n → n < t.nextId
  listed : ∀ n ∈ t.fullLruList,
    (t.nodes (t.nodes n).parent).children.lookup ((t.nodes n).key.childKey pageSize) = some n
  child : ∀ p, t.Has p → ∀ k c, (t.nodes p).children.lookup k = some c →
    c ∈ t.fullLruList ∧ (t.nodes c).parent = p ∧ (t.nodes c).key.childKey pageSize = k
  keyed : ∀ n ∈ t.fullLruList,
    (t.nodes n).key.tokenIds ≠ [] ∧ (t.nodes n).value.length = (t.nodes n).key.length
  extra : ∀ n ∈ t.fullLruList, (t.nodes n).parent ≠ rootNode →
    (t.nodes n).key.extraKey = (t.nodes (t.nodes n).parent).key.extraKey

namespace Shape

variable {pageSize : Nat} {t : Tree}

section

variable (shape : t.Shape pageSize) {n : NodeId}

include shape

theorem has_parent (member : n ∈ t.fullLruList) :
    t.Has (t.nodes n).parent :=
  shape.forest.closed n member

theorem new_notMem : t.nextId ∉ t.fullLruList :=
  fun member => Nat.lt_irrefl _ (shape.fresh _ (.inr member))

theorem new_ne_root : t.nextId ≠ rootNode :=
  Nat.ne_of_gt (shape.fresh rootNode (.inl rfl))

theorem ne_new (has : t.Has n) : n ≠ t.nextId :=
  Nat.ne_of_lt (shape.fresh n has)

theorem childKey_inj {m : NodeId} (memberN : n ∈ t.fullLruList) (memberM : m ∈ t.fullLruList)
    (siblings : (t.nodes n).parent = (t.nodes m).parent)
    (same : (t.nodes n).key.childKey pageSize = (t.nodes m).key.childKey pageSize) : n = m := by
  have found := shape.listed n memberN
  rw [siblings, same, shape.listed m memberM] at found
  exact (Option.some.inj found).symm

theorem isLeaf_iff {p : NodeId} (has : t.Has p) :
    t.isLeaf p = true ↔ ∀ n ∈ t.fullLruList, (t.nodes n).parent ≠ p := by
  rw [isLeaf, List.isEmpty_iff]
  constructor
  · intro empty n member isParent
    have found := shape.listed n member
    rw [isParent, OrderedDict.lookup, empty] at found
    cases found
  intro childless
  by_contra nonempty
  obtain ⟨item, inItems⟩ := exists_mem_of_ne_nil _ nonempty
  have found : (t.nodes p).children.lookup item.1 = some item.2 :=
    OrderedDict.lookup_eq_some_iff.mpr inItems
  obtain ⟨member, isParent, -⟩ := shape.child p has item.1 item.2 found
  exact childless item.2 member isParent

end

end Shape

/-! ### Changes that keep the tree

Moves within the LRU lists, locks, and Mamba states that come or go.
-/

/-- Only the LRU lists, the locks, the Mamba states and the sizes may differ. -/
structure SameTree (t t' : Tree) : Prop where
  nextId : t'.nextId = t.nextId
  full : t'.fullLruList.Perm t.fullLruList
  children : ∀ n, (t'.nodes n).children = (t.nodes n).children
  parent : ∀ n, (t'.nodes n).parent = (t.nodes n).parent
  key : ∀ n, (t'.nodes n).key = (t.nodes n).key
  value : ∀ n, (t'.nodes n).value = (t.nodes n).value

namespace SameTree

variable {t t' t'' : Tree} {n : NodeId}

theorem has_iff (same : SameTree t t') : t'.Has n ↔ t.Has n :=
  or_congr_right same.full.mem_iff

theorem isLeaf (same : SameTree t t') (n : NodeId) : t'.isLeaf n = t.isLeaf n := by
  rw [Tree.isLeaf, Tree.isLeaf, same.children]

theorem shape {pageSize : Nat} (same : SameTree t t') (shape : t.Shape pageSize) :
    t'.Shape pageSize where
  forest := by
    have parents : (fun n => (t'.nodes n).parent) = fun n => (t.nodes n).parent :=
      funext same.parent
    rw [parents]
    exact shape.forest.perm same.full.symm
  fresh := fun n has => same.nextId ▸ shape.fresh n (same.has_iff.mp has)
  listed := by
    intro n member
    rw [same.parent, same.children, same.key]
    exact shape.listed n (same.full.mem_iff.mp member)
  child := by
    intro p has k c found
    rw [same.children] at found
    obtain ⟨member, isParent, isKey⟩ := shape.child p (same.has_iff.mp has) k c found
    rw [same.parent, same.key]
    exact ⟨same.full.mem_iff.mpr member, isParent, isKey⟩
  keyed := by
    intro n member
    rw [same.key, same.value]
    exact shape.keyed n (same.full.mem_iff.mp member)
  extra := by
    intro n member above
    rw [same.parent] at above
    rw [same.parent, same.key, same.key]
    exact shape.extra n (same.full.mem_iff.mp member) above

end SameTree

structure Touched (t t' : Tree) : Prop where
  nodes : t'.nodes = t.nodes
  nextId : t'.nextId = t.nextId
  full : t'.fullLruList.Perm t.fullLruList
  mamba : t'.mambaLruList.Perm t.mambaLruList
  size : t'.size = t.size

namespace Touched

variable {t t' t'' : Tree}

theorem refl (t : Tree) : Touched t t :=
  ⟨rfl, rfl, .refl _, .refl _, rfl⟩

theorem trans (first : Touched t t') (second : Touched t' t'') : Touched t t'' :=
  ⟨second.nodes.trans first.nodes, second.nextId.trans first.nextId, second.full.trans first.full,
    second.mamba.trans first.mamba, second.size.trans first.size⟩

theorem sameTree (touched : Touched t t') : SameTree t t' := by
  refine ⟨touched.nextId, touched.full, ?_, ?_, ?_, ?_⟩ <;> intro n <;> rw [touched.nodes]

end Touched

structure MambaSet (t : Tree) (n : NodeId) (slot : Option Nat) (t' : Tree) : Prop where
  nodes : t'.nodes = Function.update t.nodes n { t.nodes n with mambaValue := slot }
  nextId : t'.nextId = t.nextId
  full : t'.fullLruList.Perm t.fullLruList

namespace MambaSet

variable {t t' : Tree} {n : NodeId} {slot : Option Nat}

theorem field {α : Type} (f : TreeNode → α)
    (stateless : ∀ node slot, f { node with mambaValue := slot } = f node)
    (set : t.MambaSet n slot t') (m : NodeId) : f (t'.nodes m) = f (t.nodes m) := by
  rw [set.nodes, Function.update_apply]
  split
  · next same => rw [stateless, same]
  · rfl

theorem sameTree (set : t.MambaSet n slot t') : SameTree t t' :=
  ⟨set.nextId, set.full, set.field _ fun _ _ => rfl, set.field _ fun _ _ => rfl,
    set.field _ fun _ _ => rfl, set.field _ fun _ _ => rfl⟩

theorem fullLockRef (set : t.MambaSet n slot t') (m : NodeId) :
    (t'.nodes m).fullLockRef = (t.nodes m).fullLockRef :=
  set.field TreeNode.fullLockRef (fun _ _ => rfl) m

theorem mambaLockRef (set : t.MambaSet n slot t') (m : NodeId) :
    (t'.nodes m).mambaLockRef = (t.nodes m).mambaLockRef :=
  set.field TreeNode.mambaLockRef (fun _ _ => rfl) m

end MambaSet

/-! ### Splitting -/

structure Split (pageSize : Nat) (t : Tree) (child : NodeId) (k : Nat) (t' : Tree) : Prop where
  member : child ∈ t.fullLruList
  page : pageSize ≤ k
  inside : k < (t.nodes child).key.length
  nextId : t'.nextId = t.nextId + 1
  full : t'.fullLruList.Perm (t.nextId :: t.fullLruList)
  mamba : t'.mambaLruList.Perm t.mambaLruList
  size : t'.size = t.size
  children : ∀ n, (t'.nodes n).children =
    if n = t.nextId then
      OrderedDict.empty.insert (((t.nodes child).key.drop k).childKey pageSize) child
    else if n = (t.nodes child).parent then
      (t.nodes n).children.insert ((t.nodes child).key.childKey pageSize) t.nextId
    else (t.nodes n).children
  parent : ∀ n, (t'.nodes n).parent =
    if n = t.nextId then (t.nodes child).parent
    else if n = child then t.nextId
    else (t.nodes n).parent
  key : ∀ n, (t'.nodes n).key =
    if n = t.nextId then (t.nodes child).key.take k
    else if n = child then (t.nodes child).key.drop k
    else (t.nodes n).key
  value : ∀ n, (t'.nodes n).value =
    if n = t.nextId then (t.nodes child).value.take k
    else if n = child then (t.nodes child).value.drop k
    else (t.nodes n).value
  mambaValue : ∀ n, (t'.nodes n).mambaValue =
    if n = t.nextId then none else (t.nodes n).mambaValue
  fullLockRef : ∀ n, (t'.nodes n).fullLockRef =
    if n = t.nextId then (t.nodes child).fullLockRef else (t.nodes n).fullLockRef
  mambaLockRef : ∀ n, (t'.nodes n).mambaLockRef =
    if n = t.nextId then 0 else (t.nodes n).mambaLockRef

namespace Split

variable {pageSize : Nat} {t t' : Tree} {child n : NodeId} {k : Nat}

theorem has_iff (split : t.Split pageSize child k t') :
    t'.Has n ↔ n = t.nextId ∨ t.Has n := by
  simp only [Has, split.full.mem_iff, mem_cons]
  exact or_left_comm

theorem shape (split : t.Split pageSize child k t') (positive : 0 < pageSize)
    (shape : t.Shape pageSize) : t'.Shape pageSize := by
  have childNe : child ≠ t.nextId := shape.ne_new (.inr split.member)
  have parentNe : (t.nodes child).parent ≠ t.nextId := shape.ne_new (shape.has_parent split.member)
  have page := split.page
  have inside := split.inside
  have upperKey : ((t.nodes child).key.take k).childKey pageSize =
      (t.nodes child).key.childKey pageSize :=
    RadixKey.childKey_take _ page
  obtain ⟨nonempty, lengths⟩ := shape.keyed child split.member
  constructor
  · -- the new node stands on the edge above `child`
    refine (shape.forest.subdivide split.member shape.new_notMem shape.new_ne_root ?_ ?_ ?_).perm
      split.full.symm
    · rw [split.parent, if_pos rfl]
    · rw [split.parent, if_neg childNe, if_pos rfl]
    · intro n member different
      rw [split.parent, if_neg (shape.ne_new (.inr member)), if_neg different]
  · intro n has
    rw [split.nextId]
    rcases split.has_iff.mp has with rfl | old
    · exact Nat.lt_succ_self _
    · exact Nat.lt_succ_of_lt (shape.fresh n old)
  · intro n member
    rw [split.parent, split.key, split.children]
    rcases mem_cons.mp (split.full.mem_iff.mp member) with rfl | old
    · grind
    · -- a sibling of `child` is found under another key
      have := shape.childKey_inj old split.member
      have := shape.ne_new (shape.has_parent old)
      have := shape.listed n old
      grind
  · -- a child of the new node is `child`; the others are found where they were
    intro p has key c found
    rw [split.children] at found
    have isNew : c = t.nextId → c ∈ t'.fullLruList := fun same =>
      split.full.mem_iff.mpr (same ▸ mem_cons_self)
    have isOld : c ∈ t.fullLruList → c ∈ t'.fullLruList ∧ c ≠ t.nextId := fun member =>
      ⟨split.full.mem_iff.mpr (mem_cons_of_mem _ member), shape.ne_new (.inr member)⟩
    rw [split.parent, split.key]
    rcases split.has_iff.mp has with rfl | old
    · have := split.member
      grind
    · have := shape.ne_new old
      have := shape.child p old key c
      grind
  · intro n member
    rw [split.key, split.value]
    rcases mem_cons.mp (split.full.mem_iff.mp member) with rfl | old
    · simp only [if_true, ne_eq, ← length_eq_zero_iff, RadixKey.length] at *
      simp only [RadixKey.take, length_take]
      omega
    have := shape.ne_new (.inr old)
    split
    · grind
    · split
      · simp only [ne_eq, ← length_eq_zero_iff, RadixKey.length] at *
        simp only [RadixKey.drop, length_drop]
        omega
      · exact shape.keyed n old
  · intro n member above
    have different := shape.forest.parent_ne split.member
    have upper := shape.extra child split.member
    rw [split.parent] at above ⊢
    rw [split.key, split.key]
    rcases mem_cons.mp (split.full.mem_iff.mp member) with rfl | old
    · grind [RadixKey.extraKey_take]
    · have := shape.ne_new (shape.has_parent old)
      have := shape.extra n old
      grind [RadixKey.extraKey_take, RadixKey.extraKey_drop]

end Split

/-! ### Adding and removing leaves -/

structure Grown (pageSize : Nat) (t : Tree) (p : NodeId) (key : RadixKey) (value : List Nat)
    (slot : Nat) (t' : Tree) : Prop where
  has : t.Has p
  vacant : (t.nodes p).children.lookup (key.childKey pageSize) = none
  nonempty : key.tokenIds ≠ []
  lengths : value.length = key.length
  extra : p ≠ rootNode → key.extraKey = (t.nodes p).key.extraKey
  nextId : t'.nextId = t.nextId + 1
  full : t'.fullLruList.Perm (t.nextId :: t.fullLruList)
  mamba : t'.mambaLruList.Perm (t.nextId :: t.mambaLruList)
  fullEvictable : t'.fullEvictableSize = t.fullEvictableSize + value.length
  mambaEvictable : t'.mambaEvictableSize = t.mambaEvictableSize + 1
  fullProtected : t'.fullProtectedSize = t.fullProtectedSize
  mambaProtected : t'.mambaProtectedSize = t.mambaProtectedSize
  new : t'.nodes t.nextId = { parent := p, key, value, mambaValue := some slot }
  above : t'.nodes p =
    { t.nodes p with children := (t.nodes p).children.insert (key.childKey pageSize) t.nextId }
  others : ∀ n, n ≠ t.nextId → n ≠ p → t'.nodes n = t.nodes n

namespace Grown

variable {pageSize : Nat} {t t' : Tree} {p n : NodeId} {key : RadixKey} {value : List Nat}
  {slot : Nat}

section

variable (grown : t.Grown pageSize p key value slot t')

include grown

theorem has_iff :
    t'.Has n ↔ n = t.nextId ∨ t.Has n := by
  simp only [Has, grown.full.mem_iff, mem_cons]
  exact or_left_comm

theorem old (different : n ≠ t.nextId) :
    (t'.nodes n).parent = (t.nodes n).parent ∧ (t'.nodes n).key = (t.nodes n).key ∧
      (t'.nodes n).value = (t.nodes n).value ∧ (t'.nodes n).mambaValue = (t.nodes n).mambaValue ∧
      (t'.nodes n).fullLockRef = (t.nodes n).fullLockRef ∧
      (t'.nodes n).mambaLockRef = (t.nodes n).mambaLockRef := by
  by_cases isParent : n = p
  · subst isParent
    rw [grown.above]
    exact ⟨rfl, rfl, rfl, rfl, rfl, rfl⟩
  · rw [grown.others n different isParent]
    exact ⟨rfl, rfl, rfl, rfl, rfl, rfl⟩

theorem shape (shape : t.Shape pageSize) :
    t'.Shape pageSize := by
  have parentNe := shape.ne_new grown.has
  -- one entry is new: the leaf, under its key at `p`
  have lookup : ∀ n, n ≠ t.nextId → ∀ k, (t'.nodes n).children.lookup k =
      if n = p ∧ k = key.childKey pageSize then some t.nextId
      else (t.nodes n).children.lookup k := by
    intro n different k
    by_cases isParent : n = p
    · subst isParent
      rw [grown.above, OrderedDict.lookup_insert]
      simp
    · rw [grown.others n different isParent, if_neg (fun both => isParent both.1)]
  constructor
  · refine (shape.forest.graft shape.new_notMem shape.new_ne_root ?_ ?_).perm grown.full.symm
    · rw [grown.new]
      exact grown.has
    · intro n member
      exact (grown.old (shape.ne_new (.inr member))).1
  · intro n has
    rw [grown.nextId]
    rcases grown.has_iff.mp has with rfl | old
    · exact Nat.lt_succ_self _
    · exact Nat.lt_succ_of_lt (shape.fresh n old)
  · intro n member
    rcases mem_cons.mp (grown.full.mem_iff.mp member) with rfl | old
    · rw [grown.new]
      simp only [lookup p parentNe, true_and, if_true]
    obtain ⟨sameParent, sameKey, -⟩ := grown.old (shape.ne_new (.inr old))
    rw [sameParent, sameKey, lookup _ (shape.ne_new (shape.has_parent old)), if_neg,
      shape.listed n old]
    -- the place of the leaf was vacant, so no other node is listed there
    rintro ⟨isParent, isKey⟩
    have found := shape.listed n old
    rw [isParent, isKey, grown.vacant] at found
    cases found
  · intro q has k c found
    rcases grown.has_iff.mp has with rfl | old
    · rw [grown.new] at found
      cases found
    rw [lookup q (shape.ne_new old)] at found
    split at found
    · next hit =>
      cases found
      rw [grown.new]
      exact ⟨grown.full.mem_iff.mpr mem_cons_self, hit.1.symm, hit.2.symm⟩
    · obtain ⟨member, isParent, isKey⟩ := shape.child q old k c found
      obtain ⟨sameParent, sameKey, -⟩ := grown.old (shape.ne_new (.inr member))
      rw [sameParent, sameKey]
      exact ⟨grown.full.mem_iff.mpr (mem_cons_of_mem _ member), isParent, isKey⟩
  · intro n member
    rcases mem_cons.mp (grown.full.mem_iff.mp member) with rfl | old
    · rw [grown.new]
      exact ⟨grown.nonempty, grown.lengths⟩
    · obtain ⟨-, sameKey, sameValue, -⟩ := grown.old (shape.ne_new (.inr old))
      rw [sameKey, sameValue]
      exact shape.keyed n old
  · intro n member above
    rcases mem_cons.mp (grown.full.mem_iff.mp member) with rfl | old
    · rw [grown.new] at above ⊢
      rw [(grown.old parentNe).2.1]
      exact grown.extra above
    · obtain ⟨sameParent, sameKey, -⟩ := grown.old (shape.ne_new (.inr old))
      rw [sameParent] at above ⊢
      rw [sameKey, (grown.old (shape.ne_new (shape.has_parent old))).2.1]
      exact shape.extra n old above

end

end Grown

structure Removed (pageSize : Nat) (t : Tree) (n : NodeId) (t' : Tree) : Prop where
  member : n ∈ t.fullLruList
  leaf : t.isLeaf n = true
  nextId : t'.nextId = t.nextId
  full : t'.fullLruList = t.fullLruList.erase n
  mamba : t'.mambaLruList = t.mambaLruList.erase n
  children : ∀ m, (t'.nodes m).children =
    if m = (t.nodes n).parent then
      (t.nodes m).children.erase ((t.nodes n).key.childKey pageSize)
    else (t.nodes m).children
  fields : ∀ m, { t'.nodes m with children := .empty } = { t.nodes m with children := .empty }

namespace Removed

variable {pageSize : Nat} {t t' : Tree} {n : NodeId}

theorem field {α : Type} (f : TreeNode → α)
    (childless : ∀ node, f { node with children := .empty } = f node)
    (removed : t.Removed pageSize n t') (m : NodeId) : f (t'.nodes m) = f (t.nodes m) := by
  rw [← childless (t'.nodes m), ← childless (t.nodes m), removed.fields]

section

variable (removed : t.Removed pageSize n t')

include removed

theorem parent (m : NodeId) :
    (t'.nodes m).parent = (t.nodes m).parent :=
  removed.field TreeNode.parent (fun _ => rfl) m

theorem key (m : NodeId) :
    (t'.nodes m).key = (t.nodes m).key :=
  removed.field TreeNode.key (fun _ => rfl) m

theorem mem_full_iff (shape : t.Shape pageSize) {m : NodeId} :
    m ∈ t'.fullLruList ↔ m ≠ n ∧ m ∈ t.fullLruList := by
  rw [removed.full]
  exact shape.forest.nodup.mem_erase_iff

theorem shape (shape : t.Shape pageSize) :
    t'.Shape pageSize := by
  have childless := (shape.isLeaf_iff (.inr removed.member)).mp removed.leaf
  have hasOld : ∀ m, t'.Has m → t.Has m := by
    rintro m (isRoot | member)
    · exact .inl isRoot
    · exact .inr ((removed.mem_full_iff shape).mp member).2
  constructor
  · have parents : (fun m => (t'.nodes m).parent) = fun m => (t.nodes m).parent :=
      funext removed.parent
    rw [parents, removed.full]
    exact shape.forest.prune childless
  · intro m has
    rw [removed.nextId]
    exact shape.fresh m (hasOld m has)
  · intro m member
    obtain ⟨different, old⟩ := (removed.mem_full_iff shape).mp member
    -- the entry that is deleted is that of `n` alone
    have otherKey := shape.childKey_inj old removed.member
    have listed := shape.listed m old
    rw [removed.parent, removed.key, removed.children]
    grind
  · intro p has k c found
    have old := shape.child p (hasOld p has) k c
    rw [removed.children] at found
    rw [removed.parent, removed.key, removed.mem_full_iff shape]
    grind
  · intro m member
    obtain ⟨-, old⟩ := (removed.mem_full_iff shape).mp member
    rw [removed.key, removed.field TreeNode.value (fun _ => rfl)]
    exact shape.keyed m old
  · intro m member above
    obtain ⟨-, old⟩ := (removed.mem_full_iff shape).mp member
    rw [removed.parent] at above ⊢
    rw [removed.key, removed.key]
    exact shape.extra m old above

end

end Removed

end Tree

end Engram.Radix
