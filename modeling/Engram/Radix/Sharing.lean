import Engram.Radix.Delivery

/-!
# Matching with copy-on-write

`match_prefix` as a whole. A request that is to share a Mamba state gets a slot for its own copy.
When the pool is empty, the state of another node is evicted, while the matched node is locked;
when there is none, "Can not alloc mamba cache" fails, the only assertion that can
(`matchPrefix_ok`).
-/

namespace Engram.Radix

open Lib List

namespace Tree

variable {pageSize : Nat} {held : List NodeId} {t t' : Tree} {extraKey : Option String}

theorem Tracks.touched {whole : List Nat} {found : Found} (tracks : t.Tracks extraKey whole found)
    (touched : t.Touched t') : t'.Tracks extraKey whole found := by
  obtain ⟨tokens, within, path⟩ := tracks.path
  refine ⟨?_, tracks.bounded, tokens, within, touched.sameTree.reach_of path⟩
  rw [Lockable, touched.full.mem_iff, touched.nodes]
  exact tracks.lockable

theorem Covers.touched {tokens : List Nat} {found : Found} (covers : t.Covers extraKey tokens found)
    (touched : t.Touched t') : t'.Covers extraKey tokens found := by
  intro spelled values m reach within hasState
  rw [touched.nodes] at hasState
  exact covers spelled values m (touched.sameTree.reach_iff.mp reach) within hasState

end Tree

namespace Cache

variable {cfg : CacheConfig} {held kvs mambas : List NodeId} {c c' : Cache} {n : NodeId}
  {key : RadixKey} {cow : Option (Option Nat)} {found : Tree.Found} {middle : Tree}
  {result : MatchResult}

/-! ### A slot for a copy -/

theorem drops_of_relocked {full mamba : NodeId → Nat} {t' : Tree}
    (relocked : c.tree.Relocked full mamba t') : Drops cfg c [] [] { c with tree := t' } where
  parent := relocked.sameTree.parent
  key := relocked.sameTree.key
  value := relocked.sameTree.value
  states := fun n _ => by rw [relocked.nodes]
  full := by simp [relocked.fullLruList]
  mamba := by simp [relocked.mambaLruList]
  insideKv := forall_mem_nil _
  insideMamba := forall_mem_nil _
  distinctKv := nodup_nil
  distinctMamba := nodup_nil
  pages := rfl
  slots := by simp

/-- A slot has been taken from the pool, after the eviction of `kvs` and `mambas`, which has
    spared `lastNode`. -/
structure Allocates (cfg : CacheConfig) (held : List NodeId) (c : Cache) (lastNode : NodeId)
    (kvs mambas : List NodeId) (slot : Nat) (c' : Cache) : Prop where
  drops : Drops cfg c kvs mambas { c' with freeSlots := slot :: c'.freeSlots }
  spared : c'.tree.Lockable lastNode
  inv : c'.tree.Inv cfg.pageSize held
  leaves : c'.tree.Leaves

theorem incLockRef_eq {t' : Tree} (enabled : cfg.disable = false)
    (locked : c.tree.incLockRef n = .ok t') : incLockRef cfg c n = .ok { c with tree := t' } := by
  rw [incLockRef, enabled, locked]
  rfl

theorem decLockRef_eq {t' : Tree} (enabled : cfg.disable = false)
    (unlocked : c.tree.decLockRef n = .ok t') : decLockRef cfg c n = .ok { c with tree := t' } := by
  rw [decLockRef, enabled, unlocked]
  rfl

theorem allocForCow_ok {lastNode : NodeId} (enabled : cfg.disable = false)
    (inv : c.tree.Inv cfg.pageSize held) (leaves : c.tree.Leaves)
    (lockable : c.tree.Lockable lastNode) :
    (∃ kvs mambas slot c', allocForCow cfg c lastNode = .ok (slot, c') ∧
      Allocates cfg held c lastNode kvs mambas slot c') ∨
    (c.freeSlots = [] ∧ (∀ n ∈ c.tree.mambaLruList, n = lastNode ∨ n ∈ held) ∧
      allocForCow cfg c lastNode = .error .canNotAllocMamba) := by
  rw [allocForCow, allocMamba]
  cases free : c.freeSlots with
  | cons slot rest =>
    refine .inl ⟨[], [], slot, { c with freeSlots := rest }, rfl, ?_, lockable, inv, leaves⟩
    simp only [← free]
    exact .refl cfg c
  | nil =>
    obtain ⟨t₁, full, mamba, locked, inv₁, relocked⟩ := Tree.incLockRef_spec inv lockable
    have first : Drops cfg c [] [] { c with tree := t₁ } := drops_of_relocked relocked
    have leaves₁ := relocked.leaves leaves
    -- the matched node stays, since it is locked
    generalize isLocked : ({ c with tree := t₁ } : Cache) = c₁ at first
    have isTree : c₁.tree = t₁ := by rw [← isLocked]
    rw [← isTree] at inv₁ leaves₁
    obtain ⟨kvs, mambas, c₂, evicted, evicts, inv₂, leaves₂, count⟩ :=
      evictMamba_ok 1 enabled inv₁ leaves₁
    obtain ⟨t₃, full', mamba', unlocked, inv₃, relocked'⟩ :=
      Tree.decLockRef_spec inv₂ mem_cons_self
    have last : Drops cfg c₂ [] [] { c₂ with tree := t₃ } := drops_of_relocked relocked'
    have drops := (first.trans evicts.toDrops).trans last
    simp only [append_nil] at drops
    rw [erase_cons_head] at inv₃
    simp only [incLockRef_eq enabled locked, isLocked, evicted, bind, Except.bind, allocMamba]
    cases free' : c₂.freeSlots with
    | nil =>
      refine .inr ⟨trivial, ?_, ?_⟩
      · -- nothing has been evicted, so every state is locked
        have noVictim : mambas.length = 0 := by
          have freed := evicts.slots
          rw [free', eq_comm, append_eq_nil_iff] at freed
          rw [← evicts.length_states inv₁.mambas, freed.2]
          rfl
        have total := mambaEvictable_eq inv₁
        have zero := tally_eq_zero_iff.mp (show tally c₁.tree.mambaLruList (fun n =>
          if (c₁.tree.nodes n).mambaLockRef = 0 then 1 else 0) = 0 by omega)
        intro n listed
        by_contra neither
        have listed' : n ∈ c₁.tree.mambaLruList := by
          rw [isTree, relocked.mambaLruList]
          exact listed
        have unlocked' := inv₁.locks.owned n ((inv₁.mambas.listed n).mp listed').1
        rw [count_eq_zero_of_not_mem (by simpa using neither)] at unlocked'
        simpa [unlocked'] using zero n listed'
      · simp only [decLockRef_eq enabled unlocked]
    | cons slot rest =>
      have unlocked' : ({ c₂ with freeSlots := rest } : Cache).tree.decLockRef lastNode = .ok t₃ :=
        unlocked
      refine .inl ⟨kvs, mambas, slot, ⟨t₃, c₂.freePages, rest⟩, ?_, ?_, ?_, inv₃,
        relocked'.leaves leaves₂⟩
      · simp only [decLockRef_eq enabled unlocked']
      · simp only [← free']
        exact drops
      · have spared := inv₂.locks.held lastNode mem_cons_self
        rw [Tree.Lockable, relocked'.fullLruList, relocked'.nodes]
        exact spared

theorem Drops.reach_kept (drops : Drops cfg c kvs mambas c') (before : c.tree.Shape cfg.pageSize)
    (after : c'.tree.Shape cfg.pageSize) {extraKey : Option String} {tokens values : List Nat}
    (reach : c.tree.Reach extraKey rootNode tokens values n) (stays : c'.tree.Has n) :
    c'.tree.Reach extraKey rootNode tokens values n := by
  induction reach using Tree.Reach.snoc_induction with
  | start => exact .here rootNode
  | step p n tokens values _ child ih =>
    have member : n ∈ c'.tree.fullLruList :=
      stays.resolve_left (before.forest.ne_root child.member)
    have parent : (c'.tree.nodes n).parent = p := by rw [drops.parent, child.parent]
    have below := (ih (parent ▸ after.has_parent member)).snoc
      ⟨member, parent, by rw [drops.key, child.extra]⟩
    rw [drops.key, drops.value] at below
    exact below

/-! ### The whole match -/

structure Answers (cfg : CacheConfig) (held : List NodeId) (c : Cache) (key : RadixKey)
    (cow : Option (Option Nat)) (found : Tree.Found) (middle : Tree) (kvs mambas : List NodeId)
    (result : MatchResult) (c' : Cache) : Prop where
  helped : ∃ t', c.tree.matchPrefixHelper cfg.pageSize key = .ok (found, t')
  reshaped : c.tree.Reshaped cfg.pageSize middle
  tracks : middle.Tracks key.extraKey key.tokenIds found
  covers : c.tree.PageAligned cfg.pageSize → middle.Covers key.extraKey key.tokenIds found
  indices : result.deviceIndices = (found.value.take found.bestValueLen).flatten
  node : result.lastDeviceNode = found.bestLastNode
  inv : c'.tree.Inv cfg.pageSize held
  leaves : c'.tree.Leaves
  slot :
    (result.mambaPoolIdx = cow.join ∧ kvs = [] ∧ mambas = [] ∧ c' = { c with tree := middle }) ∨
    (cow = some none ∧ ∃ slot, result.mambaPoolIdx = some slot ∧
      Allocates cfg held { c with tree := middle } found.bestLastNode kvs mambas slot c')

theorem matchPrefix_ok (enabled : cfg.disable = false) (inv : c.tree.Inv cfg.pageSize held)
    (leaves : c.tree.Leaves) (key : RadixKey) (someKey : key.length ≠ 0)
    (cow : Option (Option Nat)) :
    (∃ result c' found middle kvs mambas, matchPrefix cfg c key cow = .ok (result, c') ∧
      Answers cfg held c key cow found middle kvs mambas result c') ∨
    (cow = some none ∧ c.freeSlots = [] ∧
      (∃ found t, c.tree.matchPrefixHelper cfg.pageSize key = .ok (found, t) ∧
        ∀ n ∈ c.tree.mambaLruList, n = found.bestLastNode ∨ n ∈ held) ∧
      matchPrefix cfg c key cow = .error .canNotAllocMamba) := by
  obtain ⟨found, t₁, helped, reshaped, tracks, covers⟩ :=
    Tree.matchPrefixHelper_ok cfg.positive inv key
  have inv₁ := reshaped.inv cfg.positive inv
  -- behind the walk the way to the node is moved to the front of both lists
  obtain ⟨t₂, resetFull, touched⟩ :=
    Tree.resetNodeAndParentsMru_ok inv₁ .full (tracks.lockable.imp_right And.left)
  have inv₂ := inv₁.touched touched
  have tracks₂ := tracks.touched touched
  obtain ⟨t₃, resetMamba, touched'⟩ :=
    Tree.resetNodeAndParentsMru_ok inv₂ .mamba (tracks₂.lockable.imp_right And.left)
  have inv₃ := inv₂.touched touched'
  have tracks₃ := tracks₂.touched touched'
  have leaves₃ := touched'.leaves (touched.leaves (reshaped.leaves leaves))
  have reshaped₃ := (reshaped.touched touched).touched touched'
  have covers₃ := fun aligned => ((covers aligned).touched touched).touched touched'
  have runs : cfg.disable = false ∧ (key.length == 0) = false := ⟨enabled, by simpa using someKey⟩
  rw [matchPrefix, if_neg (by simp [runs])]
  simp only [helped, bind, Except.bind, matchPostProcessor, resetFull, resetMamba]
  split
  · next source state =>
    rcases allocForCow_ok (c := { c with tree := t₃ }) enabled inv₃ leaves₃ tracks₃.lockable with
      ⟨kvs, mambas, slot, c', allocated, allocates⟩ | ⟨empty, locked, failed⟩
    · rw [allocated]
      exact .inl ⟨_, c', found, t₃, kvs, mambas, rfl, ⟨_, helped⟩, reshaped₃, tracks₃, covers₃, rfl,
        rfl, allocates.inv, allocates.leaves, .inr ⟨rfl, slot, rfl, allocates⟩⟩
    · rw [failed]
      refine .inr ⟨rfl, empty, ⟨found, t₁, rfl, fun n listed => locked n ?_⟩, rfl⟩
      exact reshaped₃.mamba.mem_iff.mpr listed
  · exact .inl ⟨_, _, found, t₃, [], [], rfl, ⟨_, helped⟩, reshaped₃, tracks₃, covers₃, rfl, rfl,
      inv₃, leaves₃, .inl ⟨rfl, rfl, rfl, rfl⟩⟩
  · exact .inl ⟨_, _, found, t₃, [], [], rfl, ⟨_, helped⟩, reshaped₃, tracks₃, covers₃, rfl, rfl,
      inv₃, leaves₃, .inl ⟨rfl, rfl, rfl, rfl⟩⟩

/-- The tree is rearranged, and then paths and states are taken away. -/
def Wanes (cfg : CacheConfig) (c c' : Cache) : Prop :=
  ∃ middle kvs mambas slots, c.tree.Reshaped cfg.pageSize middle ∧
    Drops cfg { c with tree := middle } kvs mambas { c' with freeSlots := slots }

theorem Drops.wanes (drops : Drops cfg c kvs mambas c') :
    c.Wanes cfg c' :=
  ⟨c.tree, kvs, mambas, c'.freeSlots, .refl, drops⟩

section

variable (answers : Answers cfg held c key cow found middle kvs mambas result c')

include answers

theorem Answers.wanes :
    c.Wanes cfg c' := by
  rcases answers.slot with ⟨-, -, -, rfl⟩ | ⟨-, slot, -, allocates⟩
  · exact ⟨middle, [], [], c.freeSlots, answers.reshaped, .refl ..⟩
  · exact ⟨middle, kvs, mambas, _, answers.reshaped, allocates.drops⟩

theorem Answers.lockable :
    c'.tree.Lockable result.lastDeviceNode := by
  rw [answers.node]
  rcases answers.slot with ⟨-, -, -, rfl⟩ | ⟨-, slot, -, allocates⟩
  · exact answers.tracks.lockable
  · exact allocates.spared

theorem Answers.path (inv : c.tree.Inv cfg.pageSize held) :
    ∃ tokens, tokens <+: key.tokenIds ∧
      middle.Reach key.extraKey rootNode tokens result.deviceIndices result.lastDeviceNode ∧
      c'.tree.Reach key.extraKey rootNode tokens result.deviceIndices result.lastDeviceNode := by
  have stays : c'.tree.Has result.lastDeviceNode := answers.lockable.imp_right And.left
  obtain ⟨tokens, within, path⟩ := answers.tracks.path
  rw [← answers.indices, ← answers.node] at path
  refine ⟨tokens, within, path, ?_⟩
  rcases answers.slot with ⟨-, -, -, rfl⟩ | ⟨-, slot, -, allocates⟩
  · exact path
  · exact allocates.drops.reach_kept (answers.reshaped.inv cfg.positive inv).shape answers.inv.shape
      path stays

end

end Cache

end Engram.Radix
