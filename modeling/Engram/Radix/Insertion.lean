import Engram.Radix.Walks

/-!
# Insertion

`insert` goes down along its key in rounds. A round passes one child, frees the new indices of the
tokens the child has already, and splits the child where the key leaves it. Where the rounds end,
a leaf is added, a tombstone is given the state, or the state is there already. None of this fails
(`insert_ok`).
-/

namespace Engram.Radix

open Lib List

namespace Cache

variable {cfg : CacheConfig} {held : List NodeId} {prevPrefixLen : Nat} {c : Cache} {d : Descent}

structure Passes (cfg : CacheConfig) (prevPrefixLen : Nat) (child : NodeId) (touched : Tree)
    (k : Nat) (x y : Descent × Cache) : Prop where
  matched : k = (x.2.tree.nodes child).key.matchLen cfg.pageSize x.1.key
  found : x.2.tree.FoundChild cfg.pageSize x.1.node x.1.key child
  moved : x.2.tree.Touched touched
  arrives :
    (k < (x.2.tree.nodes child).key.length ∧ touched.Split cfg.pageSize child k y.2.tree ∧
      y.1.node = touched.nextId) ∨
    (¬ k < (x.2.tree.nodes child).key.length ∧ y.2.tree = touched ∧ y.1.node = child)
  key : y.1.key = x.1.key.drop k
  value : y.1.value = x.1.value.drop k
  total : y.1.totalPrefixLength = x.1.totalPrefixLength + k
  freed : y.2.freePages = (x.2.freeKv cfg
    ((x.1.value.take k).drop (prevPrefixLen - x.1.totalPrefixLength))).freePages
  slots : y.2.freeSlots = x.2.freeSlots

def Round (cfg : CacheConfig) (prevPrefixLen : Nat) (x y : Descent × Cache) : Prop :=
  ∃ child touched k, Passes cfg prevPrefixLen child touched k x y

/-- What holds between the rounds. -/
structure Descending (cfg : CacheConfig) (held : List NodeId) (x : Descent × Cache) : Prop where
  inv : x.2.tree.Inv cfg.pageSize held
  leaves : x.2.tree.Leaves
  has : x.2.tree.Has x.1.node
  extra : x.1.node ≠ rootNode → x.1.key.extraKey = (x.2.tree.nodes x.1.node).key.extraKey
  lengths : x.1.value.length = x.1.key.length
  arrived : x.1.key.length = 0 → x.1.node ∈ x.2.tree.fullLruList

/-- The rounds are over. -/
def Stopped (cfg : CacheConfig) (x : Descent × Cache) : Prop :=
  x.1.key.length = 0 ∨
    (x.2.tree.nodes x.1.node).children.lookup (x.1.key.childKey cfg.pageSize) = none

theorem freeKv_nil (cfg : CacheConfig) (c : Cache) : c.freeKv cfg [] = c := by
  rw [freeKv]
  split
  · rw [append_nil]
  · rfl

theorem freeKv_tree (cfg : CacheConfig) (c : Cache) (indices : List Nat) :
    (c.freeKv cfg indices).tree = c.tree := by
  rw [freeKv]
  split <;> rfl

theorem freeKv_freeSlots (cfg : CacheConfig) (c : Cache) (indices : List Nat) :
    (c.freeKv cfg indices).freeSlots = c.freeSlots := by
  rw [freeKv]
  split <;> rfl

theorem freeKv_freePages_congr (cfg : CacheConfig) {c' : Cache} (same : c.freePages = c'.freePages)
    (indices : List Nat) :
    (c.freeKv cfg indices).freePages = (c'.freeKv cfg indices).freePages := by
  rw [freeKv, freeKv]
  split
  · rw [same]
  · rw [same]

namespace Round

variable {x y : Descent × Cache}

theorem descending (round : Round cfg prevPrefixLen x y) (before : Descending cfg held x) :
    Descending cfg held y := by
  obtain ⟨child, touched, k, passes⟩ := round
  have middle := before.inv.touched passes.moved
  have member : child ∈ touched.fullLruList :=
    passes.moved.full.mem_iff.mpr passes.found.childOf.member
  have middleLeaves := passes.moved.leaves before.leaves
  have lengths : y.1.value.length = y.1.key.length := by
    rw [passes.value, passes.key, length_drop, RadixKey.length_drop, before.lengths]
  have extra : (touched.nodes child).key.extraKey = y.1.key.extraKey := by
    rw [passes.moved.nodes, passes.key]
    exact passes.found.childOf.extra
  rcases passes.arrives with ⟨-, split, isNew⟩ | ⟨-, isTree, isChild⟩
  · have inTree : y.1.node ∈ y.2.tree.fullLruList := by
      rw [isNew, split.full.mem_iff]
      exact mem_cons_self
    refine ⟨middle.split split cfg.positive, split.leaves middleLeaves, .inr inTree, ?_, lengths,
      fun _ => inTree⟩
    intro _
    rw [isNew, split.key, if_pos rfl, RadixKey.extraKey_take, extra]
  · rw [← isTree] at middle middleLeaves member extra
    rw [← isChild] at member extra
    exact ⟨middle, middleLeaves, .inr member, fun _ => extra.symm, lengths, fun _ => member⟩

theorem reshaped (round : Round cfg prevPrefixLen x y) :
    x.2.tree.Reshaped cfg.pageSize y.2.tree := by
  obtain ⟨child, touched, k, passes⟩ := round
  have moved : x.2.tree.Reshaped cfg.pageSize touched := .touched .refl passes.moved
  rcases passes.arrives with ⟨-, split, -⟩ | ⟨-, isTree, -⟩
  · rw [passes.matched, ← passes.moved.nodes] at split
    exact moved.split split
  · rw [isTree]
    exact moved

end Round

theorem insertLoop_round (prevPrefixLen fuel : Nat) {child : NodeId}
    (before : Descending cfg held (d, c)) (someKey : d.key.length ≠ 0)
    (lookup : (c.tree.nodes d.node).children.lookup (d.key.childKey cfg.pageSize) = some child) :
    ∃ y, insertLoop cfg prevPrefixLen (fuel + 1) d c = insertLoop cfg prevPrefixLen fuel y.1 y.2 ∧
      Round cfg prevPrefixLen (d, c) y := by
  have found := before.inv.shape.foundChild before.has someKey lookup
  obtain ⟨touched, touch, moved⟩ := Tree.touch_ok before.inv found.childOf.member
  have middle := before.inv.touched moved
  have member : child ∈ touched.fullLruList := moved.full.mem_iff.mpr found.childOf.member
  have matched : touched.matchChild cfg.pageSize child d.key =
      .ok ((c.tree.nodes child).key.matchLen cfg.pageSize d.key) := by
    rw [Tree.matchChild, moved.nodes]
    exact found.matchChild
  generalize isLen : (c.tree.nodes child).key.matchLen cfg.pageSize d.key = k at matched
  -- an index before `prev_prefix_len` is not freed
  have frees : ∀ c : Cache,
      (if prevPrefixLen < d.totalPrefixLength + k then
        c.freeKv cfg ((d.value.take k).drop (prevPrefixLen - d.totalPrefixLength)) else c) =
      c.freeKv cfg ((d.value.take k).drop (prevPrefixLen - d.totalPrefixLength)) := by
    intro c
    split
    · rfl
    · rw [drop_eq_nil_of_le, freeKv_nil]
      rw [length_take]
      omega
  have samePages : ({ c with tree := touched }.freeKv cfg
      ((d.value.take k).drop (prevPrefixLen - d.totalPrefixLength))).freePages =
      (c.freeKv cfg ((d.value.take k).drop (prevPrefixLen - d.totalPrefixLength))).freePages := by
    apply freeKv_freePages_congr
    rfl
  -- the key leaves the child inside, or the whole child is passed
  rw [insertLoop, if_neg someKey, lookup]
  simp only [touch, matched, bind, Except.bind, frees, freeKv_tree]
  split
  · next inside =>
    obtain ⟨t', splits, split⟩ := Tree.splitNode_ok middle member (isLen ▸ found.page) inside
    rw [splits]
    refine ⟨(_, _), rfl, child, touched, k, isLen.symm, found, moved, .inl ⟨?_, split, rfl⟩, rfl,
      rfl, rfl, samePages, freeKv_freeSlots ..⟩
    rw [← moved.nodes]
    exact inside
  · next complete =>
    refine ⟨(_, _), rfl, child, touched, k, isLen.symm, found, moved, .inr ⟨?_, rfl, rfl⟩, rfl,
      rfl, rfl, samePages, freeKv_freeSlots ..⟩
    rw [← moved.nodes]
    exact complete

theorem insertLoop_ok (prevPrefixLen : Nat) {fuel : Nat} (before : Descending cfg held (d, c))
    (enough : d.key.length ≤ fuel) :
    ∃ y, insertLoop cfg prevPrefixLen fuel d c = .ok y ∧
      Relation.ReflTransGen (Round cfg prevPrefixLen) (d, c) y ∧ Descending cfg held y ∧
      Stopped cfg y := by
  induction fuel generalizing d c with
  | zero =>
    have empty := Nat.le_zero.mp enough
    rw [insertLoop, if_pos (.inl empty)]
    exact ⟨_, rfl, .refl, before, .inl empty⟩
  | succ fuel ih =>
    by_cases someKey : d.key.length = 0
    · rw [insertLoop, if_pos someKey]
      exact ⟨_, rfl, .refl, before, .inl someKey⟩
    cases lookup : (c.tree.nodes d.node).children.lookup (d.key.childKey cfg.pageSize) with
    | none =>
      rw [insertLoop, if_neg someKey, lookup]
      exact ⟨_, rfl, .refl, before, .inr lookup⟩
    | some child =>
      obtain ⟨y, unfolds, round⟩ := insertLoop_round prevPrefixLen fuel before someKey lookup
      have shorter : y.1.key.length ≤ fuel := by
        obtain ⟨child, touched, k, passes⟩ := round
        rw [passes.key, passes.matched]
        exact passes.found.shorter cfg.positive enough
      obtain ⟨z, loops, rounds, after, stopped⟩ := ih (round.descending before) shorter
      rw [unfolds]
      exact ⟨z, loops, .head round rounds, after, stopped⟩

/-! ### The whole insertion -/

/-- What happens at the end of the rounds. -/
inductive Finishes (cfg : CacheConfig) (d : Descent) (slot : Nat) (t : Tree) : Bool → Tree → Prop
    where
  | grown {t' : Tree} (grown : t.Grown cfg.pageSize d.node d.key d.value slot t') :
      Finishes cfg d slot t false t'
  | revived {t' : Tree} (empty : d.key.length = 0) (revived : t.Revived d.node slot t') :
      Finishes cfg d slot t false t'
  | present {t' : Tree} (empty : d.key.length = 0) (member : d.node ∈ t.fullLruList)
      (hasState : (t.nodes d.node).mambaValue.isSome = true) (touched : t.Touched t') :
      Finishes cfg d slot t true t'

namespace Finishes

variable {d : Descent} {slot : Nat} {t t' : Tree} {mambaExist : Bool}

theorem inv (finishes : Finishes cfg d slot t mambaExist t') (inv : t.Inv cfg.pageSize held) :
    t'.Inv cfg.pageSize held := by
  cases finishes with
  | grown grown => exact inv.grown grown
  | revived _ revived => exact revived.inv inv
  | present _ _ _ touched => exact inv.touched touched

theorem leaves (finishes : Finishes cfg d slot t mambaExist t') (leaves : t.Leaves) :
    t'.Leaves := by
  cases finishes with
  | grown grown => exact grown.leaves leaves
  | revived _ revived => exact revived.leaves leaves
  | present _ _ _ touched => exact touched.leaves leaves

end Finishes

theorem finishInsert_ok (slot : Nat) (before : Descending cfg held (d, c))
    (stopped : Stopped cfg (d, c)) :
    ∃ mambaExist t', finishInsert cfg d slot c.tree = .ok (mambaExist, t') ∧
      Finishes cfg d slot c.tree mambaExist t' := by
  by_cases empty : d.key.length = 0
  · have member := before.arrived empty
    cases hasState : (c.tree.nodes d.node).mambaValue with
    | none =>
      obtain ⟨t', finished, revived⟩ :=
        Tree.finishInsert_revived slot before.inv member empty hasState
      exact ⟨false, t', finished, .revived empty revived⟩
    | some old =>
      have isSome : (c.tree.nodes d.node).mambaValue.isSome = true := by rw [hasState]; rfl
      obtain ⟨t', finished, touched⟩ :=
        Tree.finishInsert_present slot before.inv member empty isSome
      exact ⟨true, t', finished, .present empty member isSome touched⟩
  · have nonempty : d.key.tokenIds ≠ [] := fun isNil => empty (length_eq_zero_iff.mpr isNil)
    obtain ⟨t', finished, grown⟩ := Tree.finishInsert_grown slot before.inv before.has nonempty
      before.lengths (stopped.resolve_left empty) before.extra
    exact ⟨false, t', finished, .grown grown⟩

theorem reshaped_of_rounds {x y : Descent × Cache}
    (rounds : Relation.ReflTransGen (Round cfg prevPrefixLen) x y) :
    x.2.tree.Reshaped cfg.pageSize y.2.tree := by
  induction rounds with
  | refl => exact .refl
  | tail _ round ih => exact ih.trans round.reshaped

structure Inserts (cfg : CacheConfig) (held : List NodeId) (c : Cache) (key : RadixKey)
    (value : List Nat) (slot prevPrefixLen : Nat) (d : Descent) (middle : Cache)
    (result : InsertResult) (c' : Cache) : Prop where
  rounds : Relation.ReflTransGen (Round cfg prevPrefixLen) (⟨rootNode, key, value, 0⟩, c)
    (d, middle)
  reached : Descending cfg held (d, middle)
  stopped : Stopped cfg (d, middle)
  finishes : Finishes cfg d slot middle.tree result.mambaExist c'.tree
  prefixLen : result.prefixLen = d.totalPrefixLength
  freePages : c'.freePages = middle.freePages
  freeSlots : c'.freeSlots = middle.freeSlots

theorem insert_ok {key : RadixKey} {value : List Nat} (slot prevPrefixLen : Nat)
    (enabled : cfg.disable = false) (someKey : key.length ≠ 0) (lengths : value.length = key.length)
    (inv : c.tree.Inv cfg.pageSize held) (leaves : c.tree.Leaves) :
    ∃ result c' d middle, insert cfg c key value slot prevPrefixLen = .ok (result, c') ∧
      Inserts cfg held c key value slot prevPrefixLen d middle result c' := by
  have start : Descending cfg held (⟨rootNode, key, value, 0⟩, c) :=
    ⟨inv, leaves, .inl rfl, fun notRoot => absurd rfl notRoot, lengths,
      fun empty => absurd empty someKey⟩
  obtain ⟨⟨d, middle⟩, loops, rounds, reached, stopped⟩ :=
    insertLoop_ok prevPrefixLen start (Nat.le_refl _)
  obtain ⟨mambaExist, t', finished, finishes⟩ := finishInsert_ok slot reached stopped
  refine ⟨⟨d.totalPrefixLength, mambaExist⟩, { middle with tree := t' }, d, middle, ?_,
    rounds, reached, stopped, finishes, rfl, rfl, rfl⟩
  rw [insert, enabled, if_neg Bool.false_ne_true, if_neg someKey, loops]
  simp only [bind, Except.bind]
  rw [finished]

end Cache

end Engram.Radix
