import Engram.Radix.Sharing
import Engram.Lib.Transition

/-!
# Runs of the cache

Sequences of `insert`, `match_prefix`, locks and evictions from an empty cache. A run remembers
the locks in force. The invariant holds in every state a run reaches, and with it what the source
says about leaves, LRU lists, locks and sizes (`stays_consistent`) and about what an eviction
frees (`evictions_deliver`).
-/

namespace Engram.Radix

open Lib Lib.Transition List

/-! ### Consistent trees -/

namespace Tree

inductive InTree (t : Tree) : NodeId → Prop where
  | root : InTree t rootNode
  | child {p c : NodeId} {k : ChildKey} (above : InTree t p)
      (found : (t.nodes p).children.lookup k = some c) : InTree t c

/-- What the functions of the cache rely on. -/
structure Consistent (t : Tree) : Prop where
  leaves : ∀ n, t.InTree n → n ≠ rootNode → t.isLeaf n = true →
    (t.nodes n).mambaValue.isSome = true
  full : t.fullLruList.Nodup ∧ ∀ n, n ∈ t.fullLruList ↔ t.InTree n ∧ n ≠ rootNode
  mamba : t.mambaLruList.Nodup ∧
    ∀ n, n ∈ t.mambaLruList ↔ t.InTree n ∧ (t.nodes n).mambaValue.isSome = true
  childLocks : ∀ p c k, t.InTree p → p ≠ rootNode → (t.nodes p).children.lookup k = some c →
    (t.nodes c).fullLockRef ≤ (t.nodes p).fullLockRef
  mambaLocks : ∀ n, t.InTree n → (t.nodes n).mambaLockRef ≤ (t.nodes n).fullLockRef
  /-- the sums over the unlocked and over the locked nodes, in any enumeration -/
  sizes : ∀ nodes : List NodeId, nodes.Nodup → (∀ n, n ∈ nodes ↔ t.InTree n ∧ n ≠ rootNode) →
    t.fullEvictableSize =
      tally (nodes.filter fun n => (t.nodes n).fullLockRef = 0)
        (fun n => (t.nodes n).value.length) ∧
    t.fullProtectedSize =
      tally (nodes.filter fun n => (t.nodes n).fullLockRef ≠ 0)
        (fun n => (t.nodes n).value.length) ∧
    t.mambaEvictableSize = (nodes.filter fun n =>
      (t.nodes n).mambaValue.isSome ∧ (t.nodes n).mambaLockRef = 0).length ∧
    t.mambaProtectedSize = (nodes.filter fun n =>
      (t.nodes n).mambaValue.isSome ∧ (t.nodes n).mambaLockRef ≠ 0).length

variable {pageSize : Nat} {held : List NodeId} {t : Tree} {n : NodeId}

theorem Shape.inTree_iff (shape : t.Shape pageSize) : t.InTree n ↔ t.Has n := by
  constructor
  · intro inTree
    induction inTree with
    | root => exact .inl rfl
    | child _ found ih => exact .inr (shape.child _ ih _ _ found).1
  intro has
  obtain ⟨depth, deeper⟩ := shape.forest.ranked
  -- from the root down to the node, by its depth
  induction isDepth : depth n using Nat.strongRecOn generalizing n with
  | ind d ih =>
    rcases has with rfl | member
    · exact .root
    · have lower := deeper n member
      exact .child (ih _ (isDepth ▸ lower) (shape.has_parent member) rfl) (shape.listed n member)

theorem Shape.mem_full_iff (shape : t.Shape pageSize) :
    n ∈ t.fullLruList ↔ t.InTree n ∧ n ≠ rootNode := by
  rw [shape.inTree_iff]
  constructor
  · exact fun member => ⟨.inr member, shape.forest.ne_root member⟩
  · exact fun both => both.1.resolve_left both.2

theorem tally_one (nodes : List NodeId) : tally nodes (fun _ => 1) = nodes.length := by
  rw [tally, map_const', sum_replicate_nat, Nat.mul_one]

theorem Inv.consistent (inv : t.Inv pageSize held) (leaves : t.Leaves) : t.Consistent where
  leaves := fun n inTree notRoot isLeaf =>
    leaves n (inv.shape.mem_full_iff.mpr ⟨inTree, notRoot⟩) isLeaf
  full := ⟨inv.shape.forest.nodup, fun _ => inv.shape.mem_full_iff⟩
  mamba := by
    refine ⟨inv.mambas.nodup, fun n => ?_⟩
    rw [inv.mambas.listed, inv.shape.mem_full_iff, and_assoc, and_congr_right_iff]
    refine fun _ => and_iff_right_of_imp ?_
    rintro hasState rfl
    rw [inv.mambas.root] at hasState
    cases hasState
  childLocks := by
    intro p c k inTree notRoot found
    have has := inv.shape.inTree_iff.mp inTree
    obtain ⟨member, parent, -⟩ := inv.shape.child p has k c found
    have inside := has.resolve_left notRoot
    have below := inv.locks.flow.child_le member (by rw [parent]; exact inside)
    rw [parent] at below
    exact below
  mambaLocks := by
    intro n inTree
    rcases inv.shape.inTree_iff.mp inTree with rfl | member
    · exact inv.locks.root
    · exact inv.locks.flow.own_le member
  sizes := by
    intro nodes distinct all
    -- a list of all nodes is a permutation of the LRU list, and the sums agree
    have same : t.fullLruList.Perm nodes := by
      apply (perm_ext_iff_of_nodup inv.shape.forest.nodup distinct).mpr
      intro n
      rw [inv.shape.mem_full_iff, all]
    have sums : ∀ kind (chosen : NodeId → Bool) (weight : NodeId → Nat),
        (∀ n, Load.counted (t.nodes n).load kind = if chosen n then weight n else 0) →
        t.size kind = (tally (nodes.filter chosen) weight : Nat) := by
      intro kind chosen weight counted
      rw [inv.sizes kind, Tree.sum, tally_perm same, tally_filter]
      congr 1
      exact tally_congr fun n _ => counted n
    refine ⟨sums .fullEvictable _ _ fun n => ?_, sums .fullProtected _ _ fun n => ?_,
      (sums .mambaEvictable _ _ fun n => ?_).trans (congrArg _ (tally_one _)),
      (sums .mambaProtected _ _ fun n => ?_).trans (congrArg _ (tally_one _))⟩
    · by_cases unlocked : (t.nodes n).fullLockRef = 0 <;>
        simp [Load.counted, TreeNode.load, unlocked]
    · by_cases unlocked : (t.nodes n).fullLockRef = 0 <;>
        simp [Load.counted, TreeNode.load, unlocked]
    · by_cases unlocked : (t.nodes n).mambaLockRef = 0 <;>
        simp [Load.counted, TreeNode.load, unlocked]
    · by_cases unlocked : (t.nodes n).mambaLockRef = 0 <;>
        simp [Load.counted, TreeNode.load, unlocked]

end Tree

/-! ### Runs -/

/-- An operation. An insertion gives one KV index for each token. -/
inductive Op where
  | insert (key : RadixKey) (value : List Nat) (mambaValue prevPrefixLen : Nat)
      (lengths : value.length = key.length)
  /-- `cow` is `req.mamba_pool_idx` for a match with `cow_mamba` -/
  | matchPrefix (key : RadixKey) (cow : Option (Option Nat))
  | incLockRef (node : NodeId)
  | decLockRef (node : NodeId)
  | evictFull (fullNumTokens : Int)
  | evictMamba (mambaNum : Int)

/-- The operation that gives the tree something to keep. -/
def Op.Stores : Op → Prop
  | .insert .. => True
  | _ => False

/-- A cache in use: the locks in force and the nodes that matches have returned. -/
structure InUse where
  cache : Cache
  held : List NodeId := []
  returned : List NodeId := []

namespace InUse

variable (cfg : CacheConfig)

def reset (numPages size : Nat) : InUse where
  cache := .reset numPages size

def step (s : InUse) : Op → Except Failure InUse
  | .insert key value mambaValue prevPrefixLen _ => do
    let (_, cache) ← s.cache.insert cfg key value mambaValue prevPrefixLen
    .ok { s with cache }
  | .matchPrefix key cow => do
    let (result, cache) ← s.cache.matchPrefix cfg key cow
    .ok { s with cache, returned := result.lastDeviceNode :: s.returned }
  | .incLockRef node => do
    let cache ← s.cache.incLockRef cfg node
    .ok { s with cache, held := node :: s.held }
  | .decLockRef node => do
    let cache ← s.cache.decLockRef cfg node
    .ok { s with cache, held := s.held.erase node }
  | .evictFull fullNumTokens => do
    let (_, cache) ← s.cache.evictFull cfg fullNumTokens
    .ok { s with cache }
  | .evictMamba mambaNum => do
    let (_, cache) ← s.cache.evictMamba cfg mambaNum
    .ok { s with cache }

/-- The nodes that are locked come from `match_prefix`, and a release has its lock. -/
def Paired (s : InUse) : Op → Prop
  | .incLockRef node => node ∈ s.returned
  | .decLockRef node => node ∈ s.held
  | _ => True

/-- The same, where a node that is locked is the root, or in the tree with a Mamba state. -/
def Current (s : InUse) : Op → Prop
  | .incLockRef node => s.cache.tree.Lockable node
  | .decLockRef node => node ∈ s.held
  | _ => True

instance (s : InUse) : ∀ op, Decidable (s.Paired op)
  | .incLockRef _ | .decLockRef _ => inferInstanceAs (Decidable (_ ∈ _))
  | .insert .. | .matchPrefix .. | .evictFull _ | .evictMamba _ => instDecidableTrue

instance (s : InUse) : ∀ op, Decidable (s.Current op)
  | .incLockRef _ => inferInstanceAs (Decidable (Tree.Lockable _ _))
  | .decLockRef _ => inferInstanceAs (Decidable (_ ∈ _))
  | .insert .. | .matchPrefix .. | .evictFull _ | .evictMamba _ => instDecidableTrue

structure Sound (s : InUse) : Prop where
  inv : s.cache.tree.Inv cfg.pageSize s.held
  leaves : s.cache.tree.Leaves
  disabled : cfg.disable = true → s.cache.tree = .reset

variable {cfg} {s : InUse} {n : NodeId}

theorem reset_sound (numPages size : Nat) : (reset numPages size).Sound cfg :=
  ⟨Tree.reset_inv cfg.pageSize, Tree.reset_leaves, fun _ => rfl⟩

theorem Sound.held_root (sound : s.Sound cfg) (disabled : cfg.disable = true)
    (lockable : s.cache.tree.Lockable n) : n = rootNode := by
  rw [sound.disabled disabled] at lockable
  rcases lockable with isRoot | ⟨member, -⟩
  · exact isRoot
  · cases member

/-- A match with copy-on-write finds the pool empty, and every state locked but that of the node
    it has matched. -/
def Exhausted (cfg : CacheConfig) (s : InUse) (op : Op) : Prop :=
  ∃ key found t, op = .matchPrefix key (some none) ∧ s.cache.freeSlots = [] ∧
    s.cache.tree.matchPrefixHelper cfg.pageSize key = .ok (found, t) ∧
    ∀ n ∈ s.cache.tree.mambaLruList, n = found.bestLastNode ∨ n ∈ s.held

theorem step_disabled {op : Op} (sound : s.Sound cfg) (current : s.Current op)
    (disabled : cfg.disable = true) : ∃ s', s.step cfg op = .ok s' ∧ s'.Sound cfg := by
  -- all locks are on the root, where they count nothing
  have sameLocks : ∀ held : List NodeId,
      (∀ n, n ≠ rootNode → held.count n = s.held.count n) →
      s.cache.tree.Inv cfg.pageSize held := fun _ => sound.inv.rehold_root
  cases op with
  | insert key value mambaValue prevPrefixLen lengths =>
    refine ⟨s, ?_, sound⟩
    rw [step, Cache.insert, if_pos disabled]
    rfl
  | matchPrefix key cow =>
    refine ⟨{ s with returned := rootNode :: s.returned }, ?_, sound.inv, sound.leaves,
      sound.disabled⟩
    rw [step, Cache.matchPrefix, if_pos (by simp [disabled])]
    rfl
  | incLockRef node =>
    refine ⟨{ s with held := node :: s.held }, ?_, sameLocks _ fun n notRoot => ?_, sound.leaves,
      sound.disabled⟩
    · rw [step, Cache.incLockRef, if_pos disabled]
      rfl
    · rw [sound.held_root disabled current, count_cons_of_ne notRoot.symm]
  | decLockRef node =>
    refine ⟨{ s with held := s.held.erase node }, ?_, sameLocks _ fun n notRoot => ?_,
      sound.leaves, sound.disabled⟩
    · rw [step, Cache.decLockRef, if_pos disabled]
      rfl
    · rw [sound.held_root disabled (sound.inv.locks.held node current), count_erase_of_ne notRoot]
  | evictFull fullNumTokens =>
    refine ⟨s, ?_, sound⟩
    rw [step, Cache.evictFull, if_pos (by simp [disabled])]
    rfl
  | evictMamba mambaNum =>
    refine ⟨s, ?_, sound⟩
    rw [step, Cache.evictMamba, if_pos (by simp [disabled])]
    rfl

theorem step_enabled {op : Op} (sound : s.Sound cfg) (current : s.Current op)
    (enabled : cfg.disable = false) :
    (∃ s', s.step cfg op = .ok s' ∧ s'.cache.tree.Inv cfg.pageSize s'.held ∧
        s'.cache.tree.Leaves ∧ (op.Stores ∨ s.cache.Wanes cfg s'.cache)) ∨
      (s.Exhausted cfg op ∧ s.step cfg op = .error .canNotAllocMamba) := by
  cases op with
  | insert key value mambaValue prevPrefixLen lengths =>
    by_cases empty : key.length = 0
    · refine .inl ⟨s, ?_, sound.inv, sound.leaves, .inl trivial⟩
      rw [step, Cache.insert, enabled, if_pos empty]
      rfl
    obtain ⟨result, c', d, middle, inserted, inserts⟩ := Cache.insert_ok mambaValue prevPrefixLen
      enabled empty lengths sound.inv sound.leaves
    refine .inl ⟨{ s with cache := c' }, ?_, inserts.finishes.inv inserts.reached.inv,
      inserts.finishes.leaves inserts.reached.leaves, .inl trivial⟩
    rw [step, inserted]
    rfl
  | matchPrefix key cow =>
    by_cases empty : key.length = 0
    · refine .inl ⟨{ s with returned := rootNode :: s.returned }, ?_, sound.inv, sound.leaves,
        .inr (Cache.Drops.refl cfg s.cache).wanes⟩
      rw [step, Cache.matchPrefix, if_pos (by simp [empty])]
      rfl
    rcases Cache.matchPrefix_ok enabled sound.inv sound.leaves key empty cow with
      ⟨result, c', found, middle, kvs, mambas, matched, answers⟩ |
        ⟨isCow, noSlot, ⟨found, t, helped, locked⟩, failed⟩
    · refine .inl ⟨{ s with cache := c', returned := result.lastDeviceNode :: s.returned }, ?_,
        answers.inv, answers.leaves, .inr answers.wanes⟩
      rw [step, matched]
      rfl
    · -- the copy finds no slot, and nothing that may be evicted
      refine .inr ⟨⟨key, found, t, by rw [isCow], noSlot, helped, locked⟩, ?_⟩
      rw [step, failed]
      rfl
  | incLockRef node =>
    obtain ⟨t', full, mamba, locked, inv, relocked⟩ := Tree.incLockRef_spec sound.inv current
    refine .inl ⟨{ s with cache := { s.cache with tree := t' }, held := node :: s.held }, ?_, inv,
      relocked.leaves sound.leaves, .inr (Cache.drops_of_relocked relocked).wanes⟩
    rw [step, Cache.incLockRef_eq enabled locked]
    rfl
  | decLockRef node =>
    obtain ⟨t', full, mamba, unlocked, inv, relocked⟩ := Tree.decLockRef_spec sound.inv current
    refine .inl ⟨{ s with cache := { s.cache with tree := t' }, held := s.held.erase node }, ?_,
      inv, relocked.leaves sound.leaves, .inr (Cache.drops_of_relocked relocked).wanes⟩
    rw [step, Cache.decLockRef_eq enabled unlocked]
    rfl
  | evictFull fullNumTokens =>
    obtain ⟨kvs, mambas, c', evicted, evicts, inv, leaves, -⟩ :=
      Cache.evictFull_ok fullNumTokens enabled sound.inv sound.leaves
    refine .inl ⟨{ s with cache := c' }, ?_, inv, leaves, .inr evicts.toDrops.wanes⟩
    rw [step, evicted]
    rfl
  | evictMamba mambaNum =>
    obtain ⟨kvs, mambas, c', evicted, evicts, inv, leaves, -⟩ :=
      Cache.evictMamba_ok mambaNum enabled sound.inv sound.leaves
    refine .inl ⟨{ s with cache := c' }, ?_, inv, leaves, .inr evicts.toDrops.wanes⟩
    rw [step, evicted]
    rfl

/-- No allowed operation fails, unless a copy needs a slot and there is none. -/
theorem step_sound {op : Op} (sound : s.Sound cfg) (current : s.Current op) :
    (∃ s', s.step cfg op = .ok s' ∧ s'.Sound cfg) ∨
      (s.Exhausted cfg op ∧ s.step cfg op = .error .canNotAllocMamba) := by
  cases disabled : cfg.disable with
  | true => exact .inl (step_disabled sound current disabled)
  | false =>
    refine (step_enabled sound current disabled).imp_left ?_
    rintro ⟨s', stepped, inv, leaves, -⟩
    refine ⟨s', stepped, inv, leaves, fun enabled => ?_⟩
    rw [disabled] at enabled
    cases enabled

theorem run_sound {numPages size : Nat} {ops : List Op}
    (allowed : Admissible (step cfg) Current (reset numPages size) ops)
    (reached : run (step cfg) (reset numPages size) ops = .ok s) : s.Sound cfg := by
  refine run_invariant ?_ ops _ s (reset_sound numPages size) allowed reached
  intro s op s' sound current stepped
  rcases step_sound sound current with ⟨next, isNext, nextSound⟩ | ⟨-, failed⟩
  · rw [stepped] at isNext
    cases isNext
    exact nextSound
  · rw [stepped] at failed
    cases failed

/-- In every run in which each lock is taken on the root or on a node that has its Mamba state
    still, and each release has its lock: the tree is consistent, and the next operation does
    not fail unless it needs a slot for a copy and there is none. -/
theorem stays_consistent (cfg : CacheConfig) (numPages size : Nat) (ops : List Op) (s : InUse)
    (allowed : Admissible (step cfg) Current (reset numPages size) ops)
    (reached : run (step cfg) (reset numPages size) ops = .ok s) :
    s.cache.tree.Consistent ∧
      ∀ op, s.Current op → (∃ s', s.step cfg op = .ok s') ∨
        (s.Exhausted cfg op ∧ s.step cfg op = .error .canNotAllocMamba) := by
  have sound := run_sound allowed reached
  refine ⟨sound.inv.consistent sound.leaves, fun op current => ?_⟩
  refine (step_sound sound current).imp_left ?_
  rintro ⟨s', stepped, -⟩
  exact ⟨s', stepped⟩

/-- Pages of one token, and no extra buffer. -/
def plainConfig : CacheConfig where
  pageSize := 1
  enableMambaExtraBuffer := false
  positive := Nat.zero_lt_one
  single := fun _ => rfl

/-- A key is inserted, matched in part, which splits its node, and inserted up to there; the
    node is locked while everything else is evicted. -/
def lockedPrefix : List Op :=
  [.insert ⟨[1, 2, 3], none⟩ [10, 11, 12] 7 0 rfl, .matchPrefix ⟨[1, 2], none⟩ none,
    .insert ⟨[1, 2], none⟩ [13, 14] 8 0 rfl, .matchPrefix ⟨[1, 2], none⟩ (some none),
    .incLockRef 2, .evictFull 5, .evictMamba 5]

theorem stays_consistent_lockedPrefix :
    ∃ s, run (step plainConfig) (reset 20 4) lockedPrefix = .ok s ∧
      s.cache.tree.fullLruList = [2] ∧ s.cache.tree.Consistent := by
  obtain ⟨s, reached, listed⟩ : ∃ s, run (step plainConfig) (reset 20 4) lockedPrefix = .ok s ∧
      s.cache.tree.fullLruList = [2] := by decide +kernel
  exact ⟨s, reached, listed,
    (stays_consistent plainConfig 20 4 lockedPrefix s (by decide +kernel) reached).1⟩

/-- In every state that such a run reaches: `evict_full` frees the indices of unlocked nodes, at
    least as many as asked for or all that are evictable; `evict_mamba` frees the states of
    unlocked nodes, exactly as many as asked for or all that are evictable. The numbers returned
    are those of the indices and of the states that were freed. -/
theorem evictions_deliver (cfg : CacheConfig) (numPages size : Nat) (ops : List Op) (s : InUse)
    (allowed : Admissible (step cfg) Current (reset numPages size) ops)
    (reached : run (step cfg) (reset numPages size) ops = .ok s) (n : Int) :
    (∃ kvs mambas c', s.cache.evictFull cfg n = .ok (s.cache.tokensOf kvs, c') ∧
      Cache.Evicts cfg s.cache kvs mambas c' ∧
      min n s.cache.tree.fullEvictableSize ≤ s.cache.tokensOf kvs) ∧
    (∃ kvs mambas c', s.cache.evictMamba cfg n = .ok (mambas.length, c') ∧
      Cache.Evicts cfg s.cache kvs mambas c' ∧
      mambas.length = (min n s.cache.tree.mambaEvictableSize).toNat ∧
      c'.freeSlots.length = s.cache.freeSlots.length + mambas.length) := by
  have sound := run_sound allowed reached
  cases disabled : cfg.disable with
  | true =>
    -- the tree is empty, and nothing is evictable
    have empty := sound.disabled disabled
    have nothing : s.cache.tree.fullEvictableSize = 0 ∧ s.cache.tree.mambaEvictableSize = 0 := by
      rw [empty]
      exact ⟨rfl, rfl⟩
    refine ⟨⟨[], [], s.cache, ?_, .refl .., ?_⟩, [], [], s.cache, ?_, .refl .., ?_, rfl⟩
    · rw [Cache.evictFull, if_pos (by simp [disabled])]
      rfl
    · have zero : s.cache.tokensOf [] = 0 := rfl
      omega
    · rw [Cache.evictMamba, if_pos (by simp [disabled])]
      rfl
    · rw [length_nil]
      omega
  | false =>
    obtain ⟨kvs, mambas, c', evicted, evicts, -, -, enough⟩ :=
      Cache.evictFull_ok n disabled sound.inv sound.leaves
    obtain ⟨kvs', mambas', c'', evicted', evicts', -, -, many⟩ :=
      Cache.evictMamba_ok n disabled sound.inv sound.leaves
    refine ⟨⟨kvs, mambas, c', evicted, evicts, enough⟩, kvs', mambas', c'', evicted', evicts',
      many, ?_⟩
    rw [evicts'.slots, length_append, evicts'.length_states sound.inv.mambas]

theorem evictions_deliver_lockedPrefix :
    ∃ s, run (step plainConfig) (reset 20 4) (lockedPrefix.take 5) = .ok s ∧
      s.cache.tree.fullEvictableSize = 1 ∧ s.cache.tree.mambaEvictableSize = 1 ∧
      (∃ kvs mambas c', s.cache.evictFull plainConfig 5 = .ok (s.cache.tokensOf kvs, c') ∧
        Cache.Evicts plainConfig s.cache kvs mambas c' ∧ 1 ≤ (s.cache.tokensOf kvs : Int)) := by
  obtain ⟨s, reached, full, mamba⟩ :
      ∃ s, run (step plainConfig) (reset 20 4) (lockedPrefix.take 5) = .ok s ∧
        s.cache.tree.fullEvictableSize = 1 ∧ s.cache.tree.mambaEvictableSize = 1 := by
    decide +kernel
  obtain ⟨⟨kvs, mambas, c', evicted, evicts, enough⟩, -⟩ := evictions_deliver plainConfig 20 4
    (lockedPrefix.take 5) s (by decide +kernel) reached 5
  refine ⟨s, reached, full, mamba, kvs, mambas, c', evicted, evicts, ?_⟩
  rw [full] at enough
  exact enough

/-- Two locks on a child of the root, which is not locked itself. -/
def twoLocks : List Op :=
  [.insert ⟨[1], none⟩ [10] 7 0 rfl, .matchPrefix ⟨[1], none⟩ none, .incLockRef 1,
    .matchPrefix ⟨[1], none⟩ none, .incLockRef 1]

/-- A node loses its state between the match that returns it and the lock, and is given
    another one before the release. -/
def lateLock : List Op :=
  [.insert ⟨[1], none⟩ [10] 7 0 rfl, .matchPrefix ⟨[1], none⟩ none,
    .insert ⟨[1, 2], none⟩ [10, 11] 8 1 rfl, .evictMamba 1, .incLockRef 1,
    .insert ⟨[1], none⟩ [10] 9 1 rfl, .decLockRef 1]

/-- A match that copies the only state, with an empty pool. -/
def noRoom : List Op :=
  [.insert ⟨[1], none⟩ [10] 7 0 rfl, .matchPrefix ⟨[1], none⟩ (some none)]

theorem paired_not_consistent :
    (∃ s, Admissible (step plainConfig) Paired (reset 20 4) twoLocks ∧
      run (step plainConfig) (reset 20 4) twoLocks = .ok s ∧
      (s.cache.tree.nodes rootNode).children.lookup (none, [1]) = some 1 ∧
      (s.cache.tree.nodes rootNode).fullLockRef = 1 ∧
      (s.cache.tree.nodes 1).fullLockRef = 2) ∧
    (Admissible (step plainConfig) Paired (reset 20 4) lateLock ∧
      run (step plainConfig) (reset 20 4) lateLock = .error (.mambaNotLocked 1)) ∧
    (Admissible (step plainConfig) Paired (reset 20 0) noRoom ∧
      run (step plainConfig) (reset 20 0) noRoom = .error .canNotAllocMamba) := by
  simp only [exists_and_left]
  refine ⟨by decide +kernel, ⟨by decide +kernel, ?_⟩, by decide +kernel, ?_⟩
  · exact eq_error_of_faultOf (by decide +kernel)
  · exact eq_error_of_faultOf (by decide +kernel)

end InUse

end Engram.Radix
