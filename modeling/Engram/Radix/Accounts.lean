import Engram.Radix.Matching
import Engram.Radix.Requests

/-!
# Accounts of indices and slots

How often a KV index is free or in the tree, and how often a slot of the Mamba pool is. Each
operation of the cache is a turn: it takes pages and slots in, or gives them out, and keeps the
paths to the locked nodes. The turns of a function add up (`Turn.trans`); the hardest one is that
of an insertion (`insert_turn`).
-/

namespace Engram.Radix

open Lib List

/-! ### Failures -/

/-- The assertions of `cache_unfinished_req` and `cache_finished_req`. -/
def Failure.OfCaching : Failure → Prop
  | .cacheLenUnaligned .. | .donatedStateLost | .protectedBeyondMatch | .prefixBeyondMatch => True
  | _ => False

/-- A computation that yields a result in `Q`, and that fails with none of these assertions where
    `safe` holds. -/
abbrev Calm {α : Type} (safe : Prop) (Q : α → Prop) (result : Except Failure α) : Prop :=
  Transition.Ends (fun failure => failure.OfCaching → ¬ safe) Q result

section Calm

variable {α : Type} {safe : Prop} {result : Except Failure α}

theorem Calm.of_ok {Q : α → Prop} {a : α} (ran : result = .ok a) (holds : Q a) :
    Calm safe Q result := by
  rw [ran]
  exact holds

theorem Calm.imp {safe' : Prop} {Q : α → Prop} (calm : Calm safe Q result) (weaker : safe' → safe) :
    Calm safe' Q result := by
  cases result with
  | ok a => exact calm
  | error failure => exact fun ofCaching isSafe => calm ofCaching (weaker isSafe)

theorem calm_check {condition : Bool} {failure : Failure}
    (allowed : failure.OfCaching → safe → condition = true) :
    Calm safe (fun _ => condition = true) (check condition failure) := by
  cases holds : condition with
  | true => rfl
  | false =>
    intro ofCaching isSafe
    have isTrue := allowed ofCaching isSafe
    rw [holds] at isTrue
    cases isTrue

end Calm

/-! ### Whole pages -/

namespace Tree

variable {pageSize : Nat} {held : List NodeId} {t t' : Tree} {n : NodeId}

def Paged (pageSize : Nat) (t : Tree) : Prop :=
  ∀ n ∈ t.fullLruList, ∃ pages : List Nat,
    pages.Nodup ∧ (t.nodes n).value = blocks pageSize pages

namespace Paged

section

variable (paged : t.Paged pageSize)

include paged

theorem aligned (shape : t.Shape pageSize) : t.PageAligned pageSize := by
  intro n member
  obtain ⟨pages, -, isValue⟩ := paged n member
  have lengths : (t.nodes n).value.length = (t.nodes n).key.tokenIds.length :=
    (shape.keyed n member).2
  rw [RadixKey.Aligned, RadixKey.length, ← lengths, isValue, length_blocks]
  exact Nat.dvd_mul_left ..

theorem sameTree (same : SameTree t t') : t'.Paged pageSize := by
  intro n member
  rw [same.value]
  exact paged n (same.full.mem_iff.mp member)

theorem split {child : NodeId} {k : Nat} (shape : t.Shape pageSize)
    (split : t.Split pageSize child k t') (divides : pageSize ∣ k) : t'.Paged pageSize := by
  obtain ⟨j, rfl⟩ := divides
  obtain ⟨pages, distinct, isValue⟩ := paged child split.member
  intro n member
  rcases mem_cons.mp (split.full.mem_iff.mp member) with rfl | old
  · refine ⟨pages.take j, distinct.sublist (take_sublist ..), ?_⟩
    rw [split.value_new, isValue, Nat.mul_comm, take_blocks]
  by_cases isChild : n = child
  · subst isChild
    refine ⟨pages.drop j, distinct.sublist (drop_sublist ..), ?_⟩
    rw [split.value_child shape, isValue, Nat.mul_comm, drop_blocks]
  · rw [(split.other shape old isChild).2.2]
    exact paged n old

theorem reshaped (inv : t.Inv pageSize held) (positive : 0 < pageSize)
    (reshaped : t.Reshaped pageSize t') : t'.Paged pageSize := by
  induction reshaped with
  | refl => exact paged
  | touched _ touched ih => exact ih.sameTree touched.sameTree
  | split before split ih =>
    have shape := (before.inv positive inv).shape
    exact ih.split shape split
      (RadixKey.matchLen_of_aligned (ih.aligned shape _ split.member) _).1

end

end Paged

theorem Reshaped.mambaValue (reshaped : t.Reshaped pageSize t') (positive : 0 < pageSize)
    (inv : t.Inv pageSize held) (has : t.Has n) :
    t'.Has n ∧ (t'.nodes n).mambaValue = (t.nodes n).mambaValue := by
  induction reshaped with
  | refl => exact ⟨has, rfl⟩
  | touched _ touched ih =>
    refine ⟨touched.sameTree.has_iff.mpr ih.1, ?_⟩
    rw [touched.nodes, ih.2]
  | split before split ih =>
    have shape := (before.inv positive inv).shape
    refine ⟨split.has_iff.mpr (.inr ih.1), ?_⟩
    rw [split.mambaValue, if_neg (shape.ne_new ih.1), ih.2]

/-- What a node counts for an index, and for a slot. -/
def countIndex (i : Nat) (l : Load) : Nat :=
  l.value.count i

def countSlot (i : Nat) (l : Load) : Nat :=
  l.mambaValue.toList.count i

theorem countIndex_divides (i : Nat) : Load.Divides (countIndex i) := by
  intro l k
  rw [countIndex, countIndex, countIndex, Nat.add_comm, ← count_append, take_append_drop]

theorem countSlot_divides (i : Nat) : Load.Divides (countSlot i) :=
  fun _ _ => rfl

theorem sum_countSlot (inv : t.Inv pageSize held) (i : Nat) :
    t.sum (countSlot i) = tally t.mambaLruList (fun n => countSlot i (t.nodes n).load) := by
  have listed : t.mambaLruList.Perm
      (t.fullLruList.filter fun n => (t.nodes n).mambaValue.isSome) := by
    apply (perm_ext_iff_of_nodup inv.mambas.nodup
      (inv.shape.forest.nodup.filter _)).mpr
    intro n
    rw [inv.mambas.listed, mem_filter]
  rw [tally_perm listed, tally_filter]
  apply tally_congr
  intro n _
  cases state : (t.nodes n).mambaValue with
  | none => simp [countSlot, TreeNode.load, state]
  | some slot => simp

end Tree

/-! ### Accounts -/

namespace Cache

open Engram.Radix.Tree (countIndex countSlot)

variable {cfg : CacheConfig} {kept held held' : List NodeId} {c c' c'' : Cache} {safe : Prop}
  {pages : List Nat} {t' : Tree} {n : NodeId}

def kvCount (cfg : CacheConfig) (c : Cache) (i : Nat) : Nat :=
  c.freePages.count (i / cfg.pageSize) + c.tree.sum (countIndex i)

def slotCount (c : Cache) (i : Nat) : Nat :=
  c.freeSlots.count i + c.tree.sum (countSlot i)

structure Sound (cfg : CacheConfig) (held : List NodeId) (c : Cache) : Prop where
  inv : c.tree.Inv cfg.pageSize held
  leaves : c.tree.Leaves
  paged : c.tree.Paged cfg.pageSize
  disabled : cfg.disable = true → c.tree = .reset

theorem reset_sound (numPages size : Nat) : (reset numPages size).Sound cfg [] :=
  ⟨Tree.reset_inv cfg.pageSize, Tree.reset_leaves, fun _ member => absurd member not_mem_nil,
    fun _ => rfl⟩

theorem Sound.perm (sound : c.Sound cfg held) (perm : held'.Perm held) : c.Sound cfg held' :=
  ⟨sound.inv.rehold_root fun n _ => perm.count_eq n, sound.leaves, sound.paged, sound.disabled⟩

/-- An operation: the cache takes in the pages `pagesIn` and the slots `slotsIn`, gives out
    `pagesOut` and `slotsOut`, and keeps the paths to the nodes `kept`. -/
structure Turn (cfg : CacheConfig) (kept held' : List NodeId) (c c' : Cache)
    (pagesIn pagesOut slotsIn slotsOut : List Nat) : Prop where
  sound : c'.Sound cfg held'
  reach : ∀ n ∈ kept, ∀ extraKey tokens values, c.tree.Reach extraKey rootNode tokens values n →
    c'.tree.Reach extraKey rootNode tokens values n
  kv : ∀ i, kvCount cfg c' i + pagesOut.count (i / cfg.pageSize) =
    kvCount cfg c i + pagesIn.count (i / cfg.pageSize)
  slots : ∀ i, slotCount c' i + slotsOut.count i = slotCount c i + slotsIn.count i

namespace Turn

variable {pagesIn pagesOut slotsIn slotsOut pagesIn' pagesOut' slotsIn' slotsOut' : List Nat}

theorem refl (sound : c.Sound cfg held) : Turn cfg kept held c c [] [] [] [] :=
  ⟨sound, fun _ _ _ _ _ reach => reach, fun _ => rfl, fun _ => rfl⟩

theorem trans (first : Turn cfg kept held c c' pagesIn pagesOut slotsIn slotsOut)
    (second : Turn cfg kept held' c' c'' pagesIn' pagesOut' slotsIn' slotsOut') :
    Turn cfg kept held' c c'' (pagesIn ++ pagesIn') (pagesOut ++ pagesOut')
      (slotsIn ++ slotsIn') (slotsOut ++ slotsOut') where
  sound := second.sound
  reach := fun n member extraKey tokens values reach =>
    second.reach n member _ _ _ (first.reach n member _ _ _ reach)
  kv := by
    intro i
    have kv := first.kv i
    have kv' := second.kv i
    rw [count_append, count_append]
    omega
  slots := by
    intro i
    have slots := first.slots i
    have slots' := second.slots i
    rw [count_append, count_append]
    omega

theorem recount (turn : Turn cfg kept held' c c' pagesIn pagesOut slotsIn slotsOut)
    (pages : ∀ p, pagesOut'.count p + pagesIn.count p = pagesOut.count p + pagesIn'.count p)
    (slots : ∀ i, slotsOut'.count i + slotsIn.count i = slotsOut.count i + slotsIn'.count i) :
    Turn cfg kept held' c c' pagesIn' pagesOut' slotsIn' slotsOut' where
  sound := turn.sound
  reach := turn.reach
  kv := by
    intro i
    have kv := turn.kv i
    have balance := pages (i / cfg.pageSize)
    omega
  slots := by
    intro i
    have counted := turn.slots i
    have balance := slots i
    omega

theorem mono {kept' : List NodeId}
    (turn : Turn cfg kept held' c c' pagesIn pagesOut slotsIn slotsOut)
    (fewer : ∀ n ∈ kept', n ∈ kept) :
    Turn cfg kept' held' c c' pagesIn pagesOut slotsIn slotsOut :=
  ⟨turn.sound, fun n member => turn.reach n (fewer n member), turn.kv, turn.slots⟩

end Turn

/-! ### Free lists -/

theorem turn_of_tree {pagesIn pagesOut slotsIn slotsOut : List Nat} (sound : c.Sound cfg held)
    (sameTree : c'.tree = c.tree)
    (pages : ∀ p, c'.freePages.count p + pagesOut.count p = c.freePages.count p + pagesIn.count p)
    (slots : ∀ i, c'.freeSlots.count i + slotsOut.count i =
      c.freeSlots.count i + slotsIn.count i) :
    Turn cfg kept held c c' pagesIn pagesOut slotsIn slotsOut where
  sound := by
    obtain ⟨inv, leaves, paged, disabled⟩ := sound
    rw [← sameTree] at inv leaves paged disabled
    exact ⟨inv, leaves, paged, disabled⟩
  reach := by
    intro n _ extraKey tokens values reach
    rw [sameTree]
    exact reach
  kv := by
    intro i
    have balance := pages (i / cfg.pageSize)
    rw [kvCount, kvCount, sameTree]
    omega
  slots := by
    intro i
    have balance := slots i
    rw [slotCount, slotCount, sameTree]
    omega

theorem count_freeKv {indices : List Nat} (laid : Laid cfg.pageSize pages indices) (p : Nat) :
    (c.freeKv cfg indices).freePages.count p = c.freePages.count p + pages.count p := by
  rw [freeKv]
  split
  · next single =>
    rw [single] at laid
    have whole := laid.eq_blocks (Nat.one_dvd _)
    have same : indices.count p = pages.count p := by
      rw [whole, count_blocks Nat.one_pos, Nat.div_one]
    rw [count_append, same]
  · have sorted := (perm_insertionSort (· ≤ ·) (indices.map (· / cfg.pageSize)).dedup).trans
      (laid.dedup_perm cfg.positive)
    rw [count_append, pagesOf, sorted.count_eq, Nat.add_comm]

section

variable (sound : c.Sound cfg held)

include sound

theorem freeKv_turn {indices : List Nat} (laid : Laid cfg.pageSize pages indices) :
    Turn cfg kept held c (c.freeKv cfg indices) pages [] [] [] := by
  apply turn_of_tree sound (freeKv_tree ..)
  · exact fun p => count_freeKv laid p
  · intro i
    rw [freeKv_freeSlots]

theorem freeMambas_turn (slots : List Nat) :
    Turn cfg kept held c (c.freeMambas slots) [] [] slots [] := by
  apply turn_of_tree sound (by rfl)
  · exact fun _ => rfl
  · exact fun _ => count_append

theorem freeMamba_turn (slot : Nat) :
    Turn cfg kept held c (c.freeMamba slot) [] [] [slot] [] :=
  freeMambas_turn sound [slot]

theorem takeSlots_turn {slots rest : List Nat} (free : c.freeSlots = slots ++ rest) :
    Turn cfg kept held c { c with freeSlots := rest } [] [] [] slots := by
  apply turn_of_tree sound (by rfl)
  · exact fun _ => rfl
  · intro i
    rw [free, count_append]
    simp only [count_nil]
    omega

theorem allocMamba_turn {slot : Nat} (allocated : c.allocMamba = some (slot, c')) :
    Turn cfg kept held c c' [] [] [] [slot] := by
  rw [allocMamba] at allocated
  cases free : c.freeSlots with
  | nil =>
    rw [free] at allocated
    cases allocated
  | cons head rest =>
    rw [free] at allocated
    cases allocated
    exact takeSlots_turn sound free

end

/-! ### Walks, locks and evictions -/

theorem reshaped_turn (sound : c.Sound cfg held) (reshaped : c.tree.Reshaped cfg.pageSize t')
    (enabled : cfg.disable = false) :
    Turn cfg kept held c { c with tree := t' } [] [] [] [] where
  sound := by
    refine ⟨reshaped.inv cfg.positive sound.inv, reshaped.leaves sound.leaves,
      sound.paged.reshaped sound.inv cfg.positive reshaped, fun disabled => ?_⟩
    rw [enabled] at disabled
    cases disabled
  reach := fun _ _ _ _ _ reach => reshaped.reach_of cfg.positive sound.inv reach
  kv := by
    intro i
    rw [kvCount, kvCount, reshaped.sum cfg.positive sound.inv (Tree.countIndex_divides i)]
  slots := by
    intro i
    rw [slotCount, slotCount, reshaped.sum cfg.positive sound.inv (Tree.countSlot_divides i)]

theorem count_foldl_freeKv (paged : c.tree.Paged cfg.pageSize) {kvs : List NodeId}
    (inside : ∀ n ∈ kvs, n ∈ c.tree.fullLruList) (i : Nat) (c₀ : Cache) :
    ((kvs.map fun n => (c.tree.nodes n).value).foldl (freeKv cfg) c₀).freePages.count
        (i / cfg.pageSize) =
      c₀.freePages.count (i / cfg.pageSize) +
        tally kvs (fun n => countIndex i (c.tree.nodes n).load) := by
  induction kvs generalizing c₀ with
  | nil => rfl
  | cons n kvs ih =>
    obtain ⟨pages, distinct, isValue⟩ := paged n (inside n mem_cons_self)
    have own : countIndex i (c.tree.nodes n).load = pages.count (i / cfg.pageSize) := by
      rw [countIndex, TreeNode.load, isValue, count_blocks cfg.positive]
    have laid : Laid cfg.pageSize pages (c.tree.nodes n).value :=
      isValue ▸ .whole cfg.positive distinct
    rw [map_cons, foldl_cons, ih (fun m member => inside m (mem_cons_of_mem _ member)),
      count_freeKv laid, tally_cons, own, Nat.add_assoc]

namespace Drops

variable {kvs mambas : List NodeId}

section

variable (drops : Drops cfg c kvs mambas c')

include drops

theorem kv (sound : c.Sound cfg held) (i : Nat) :
    kvCount cfg c' i = kvCount cfg c i := by
  have left : c'.tree.sum (countIndex i) =
      tally (c.tree.fullLruList.filter (· ∉ kvs))
        (fun n => countIndex i (c.tree.nodes n).load) := by
    rw [Tree.sum, drops.full]
    apply tally_congr
    intro n _
    rw [countIndex, countIndex, TreeNode.load, TreeNode.load, drops.value]
  have parts := tally_filter_notMem sound.inv.shape.forest.nodup drops.distinctKv drops.insideKv
    (fun n => countIndex i (c.tree.nodes n).load)
  have freed := count_foldl_freeKv sound.paged drops.insideKv i c
  rw [kvCount, kvCount, drops.pages]
  rw [← Tree.sum] at parts
  omega

theorem slot (before : c.tree.Inv cfg.pageSize held)
    (after : c'.tree.Inv cfg.pageSize held') (i : Nat) : slotCount c' i = slotCount c i := by
  have left : c'.tree.sum (countSlot i) =
      tally (c.tree.mambaLruList.filter (· ∉ mambas))
        (fun n => countSlot i (c.tree.nodes n).load) := by
    rw [Tree.sum_countSlot after, drops.mamba]
    apply tally_congr
    intro n member
    have spared : n ∉ mambas := of_decide_eq_true (mem_filter.mp member).2
    rw [countSlot, countSlot, TreeNode.load, TreeNode.load, drops.states n spared]
  have freed : (mambas.filterMap fun n => (c.tree.nodes n).mambaValue).count i =
      tally mambas (fun n => countSlot i (c.tree.nodes n).load) :=
    count_filterMap ..
  have parts := tally_filter_notMem before.mambas.nodup drops.distinctMamba drops.insideMamba
    (fun n => countSlot i (c.tree.nodes n).load)
  rw [slotCount, slotCount, drops.slots, count_append, Tree.sum_countSlot before]
  omega

/-- Nodes are dropped; the paths to locked nodes stay. -/
theorem turn (sound : c.Sound cfg held)
    (enabled : cfg.disable = false) (inv : c'.tree.Inv cfg.pageSize held')
    (leaves : c'.tree.Leaves) : Turn cfg held' held' c c' [] [] [] [] where
  sound := by
    refine ⟨inv, leaves, ?_, fun disabled => ?_⟩
    · intro n member
      rw [drops.value]
      exact sound.paged n (drops.mem_full_iff.mp member).1
    · rw [enabled] at disabled
      cases disabled
  reach := by
    intro n locked extraKey tokens values reach
    have stays : c'.tree.Has n := (inv.locks.held n locked).imp_right And.left
    exact drops.reach_kept sound.inv.shape inv.shape reach stays
  kv := fun i => congrArg (· + 0) (drops.kv sound i)
  slots := fun i => congrArg (· + 0) (drops.slot sound.inv inv i)

end

end Drops

section

variable (sound : c.Sound cfg held)

include sound

theorem evictFull_turn (n : Int) :
    Calm safe (fun r => Turn cfg held held c r.2 [] [] [] []) (c.evictFull cfg n) := by
  cases disabled : cfg.disable with
  | true =>
    rw [evictFull, if_pos (by simp [disabled])]
    exact Turn.refl sound
  | false =>
    obtain ⟨kvs, mambas, c', ran, evicts, inv, leaves, -⟩ :=
      evictFull_ok n disabled sound.inv sound.leaves
    exact .of_ok ran (evicts.toDrops.turn sound disabled inv leaves)

theorem evictMamba_turn (n : Int) :
    Calm safe (fun r => Turn cfg held held c r.2 [] [] [] []) (c.evictMamba cfg n) := by
  cases disabled : cfg.disable with
  | true =>
    rw [evictMamba, if_pos (by simp [disabled])]
    exact Turn.refl sound
  | false =>
    obtain ⟨kvs, mambas, c', ran, evicts, inv, leaves, -⟩ :=
      evictMamba_ok n disabled sound.inv sound.leaves
    exact .of_ok ran (evicts.toDrops.turn sound disabled inv leaves)

theorem allocMambaSlot_turn :
    Calm safe (fun r => Turn cfg held held c r.2 [] [] [] [r.1]) (c.allocMambaSlot cfg) := by
  rw [allocMambaSlot]
  split
  · next allocated => exact allocMamba_turn sound allocated
  · refine (evictMamba_turn sound 1).bind fun r _ first => ?_
    dsimp only
    split
    · exact False.elim
    · next allocated => exact first.trans (allocMamba_turn first.sound allocated)

theorem relocked_turn {full mamba : NodeId → Nat} (relocked : c.tree.Relocked full mamba t')
    (enabled : cfg.disable = false) (inv : t'.Inv cfg.pageSize held') :
    Turn cfg kept held' c { c with tree := t' } [] [] [] [] where
  sound := by
    refine ⟨inv, relocked.leaves sound.leaves, sound.paged.sameTree relocked.sameTree,
      fun disabled => ?_⟩
    rw [enabled] at disabled
    cases disabled
  reach := fun _ _ _ _ _ reach => relocked.sameTree.reach_of reach
  kv := fun i => congrArg (· + 0) ((drops_of_relocked relocked).kv sound i)
  slots := fun i => congrArg (· + 0) ((drops_of_relocked relocked).slot sound.inv inv i)

theorem Sound.rehold (counts : ∀ n, n ≠ rootNode → held'.count n = held.count n) :
    c.Sound cfg held' :=
  ⟨sound.inv.rehold_root counts, sound.leaves, sound.paged, sound.disabled⟩

end

theorem Sound.lockable_root (sound : c.Sound cfg held) (disabled : cfg.disable = true)
    (lockable : c.tree.Lockable n) : n = rootNode := by
  rw [sound.disabled disabled] at lockable
  rcases lockable with isRoot | ⟨member, -⟩
  · exact isRoot
  · cases member

theorem incLockRef_turn (kept : List NodeId) (sound : c.Sound cfg held)
    (lockable : c.tree.Lockable n) :
    Calm safe (fun c' => Turn cfg kept (n :: held) c c' [] [] [] []) (c.incLockRef cfg n) := by
  cases disabled : cfg.disable with
  | true =>
    rw [incLockRef, if_pos disabled]
    refine Turn.refl (sound.rehold fun m notRoot => ?_)
    rw [sound.lockable_root disabled lockable, count_cons_of_ne notRoot.symm]
  | false =>
    obtain ⟨t', full, mamba, locked, inv, relocked⟩ := Tree.incLockRef_spec sound.inv lockable
    exact .of_ok (incLockRef_eq disabled locked) (relocked_turn sound relocked disabled inv)

theorem decLockRef_turn (kept : List NodeId) (sound : c.Sound cfg held) (isHeld : n ∈ held) :
    Calm safe (fun c' => Turn cfg kept (held.erase n) c c' [] [] [] [] ∧
      ∀ m, c.tree.Lockable m → c'.tree.Lockable m) (c.decLockRef cfg n) := by
  cases disabled : cfg.disable with
  | true =>
    rw [decLockRef, if_pos disabled]
    refine ⟨Turn.refl (sound.rehold fun m notRoot => ?_), fun m lockable => lockable⟩
    rw [sound.lockable_root disabled (sound.inv.locks.held n isHeld), count_erase_of_ne notRoot]
  | false =>
    obtain ⟨t', full, mamba, unlocked, inv, relocked⟩ := Tree.decLockRef_spec sound.inv isHeld
    refine .of_ok (decLockRef_eq disabled unlocked)
      ⟨relocked_turn sound relocked disabled inv, fun m lockable => ?_⟩
    rw [Tree.Lockable, relocked.fullLruList, relocked.nodes]
    exact lockable

/-! ### Matches -/

/-- A match: the node is the end of a path for a beginning of the key, and a request that
    copies a state has been given a slot. -/
structure Matched (cfg : CacheConfig) (held : List NodeId) (c : Cache) (key : RadixKey)
    (cow : Option (Option Nat)) (result : MatchResult) (c' : Cache) (tokens taken : List Nat) :
    Prop where
  turn : Turn cfg held held c c' [] [] [] taken
  within : tokens <+: key.tokenIds
  path : c'.tree.Reach key.extraKey rootNode tokens result.deviceIndices result.lastDeviceNode
  longest : ∀ longer, longer <+: key.tokenIds → c.tree.HasState key.extraKey longer →
    longer.length ≤ tokens.length
  lockable : c'.tree.Lockable result.lastDeviceNode
  slot : result.mambaPoolIdx.toList = cow.join.toList ++ taken
  asked : cow = none → taken = [] ∧ c.tree.Reshaped cfg.pageSize c'.tree

theorem matchPrefix_turn (sound : c.Sound cfg held) (key : RadixKey) (cow : Option (Option Nat)) :
    Calm safe (fun r => ∃ tokens taken, Matched cfg held c key cow r.1 r.2 tokens taken)
      (c.matchPrefix cfg key cow) := by
  by_cases untried : cfg.disable = true ∨ key.length = 0
  · -- nothing is tried: the answer is the root
    rw [matchPrefix, if_pos (by simpa using untried)]
    refine ⟨[], [], .refl sound, nil_prefix, .here rootNode, ?_, .inl rfl,
      (append_nil _).symm, fun _ => ⟨rfl, .refl⟩⟩
    intro longer within hasState
    rcases untried with disabled | empty
    · rw [sound.disabled disabled] at hasState
      exact absurd hasState Tree.not_hasState_reset
    · exact within.length_le.trans (Nat.le_of_eq empty)
  rw [not_or, Bool.not_eq_true] at untried
  obtain ⟨enabled, someKey⟩ := untried
  rcases matchPrefix_ok enabled sound.inv sound.leaves key someKey cow with
    ⟨result, c', found, middle, kvs, mambas, ran, answers⟩ | ⟨-, -, -, failed⟩
  · refine .of_ok ran ?_
    obtain ⟨tokens, within, shape, path⟩ := answers.path sound.inv
    have longest : ∀ longer, longer <+: key.tokenIds → c.tree.HasState key.extraKey longer →
        longer.length ≤ tokens.length :=
      answers.longest sound.inv (sound.paged.aligned sound.inv.shape) shape
    -- the walk reshapes the tree, the copy may evict, and then the slot is taken
    have first : Turn cfg held held c { c with tree := middle } [] [] [] [] :=
      reshaped_turn sound answers.reshaped enabled
    rcases answers.slot with ⟨same, -, -, rfl⟩ | ⟨rfl, slot, isSlot, allocates⟩
    · refine ⟨tokens, [], first, within, path, longest, answers.lockable, ?_,
        fun _ => ⟨rfl, answers.reshaped⟩⟩
      rw [same, append_nil]
    have second := allocates.drops.turn first.sound enabled allocates.inv allocates.leaves
    have third : Turn cfg held held { c' with freeSlots := slot :: c'.freeSlots } c' [] [] []
        [slot] := by
      apply takeSlots_turn second.sound
      rfl
    refine ⟨tokens, [slot], (first.trans second).trans third, within, path, longest,
      answers.lockable, ?_, by simp⟩
    rw [isSlot]
    rfl
  · rw [failed]
    exact False.elim

/-! ### Insertions -/

section Insertion

variable {prevPrefixLen slot : Nat} {key : RadixKey} {value pages tokens values : List Nat}
  {d : Descent} {middle : Cache} {mambaExist : Bool}

/-- What the rounds of an insertion of `value` have freed: of the pages behind `prevPrefixLen`
    those that have been passed. -/
structure Freed (cfg : CacheConfig) (prevPrefixLen : Nat) (value pages : List Nat) (c : Cache)
    (x : Descent × Cache) : Prop where
  rest : x.1.value = value.drop x.1.totalPrefixLength
  divides : cfg.pageSize ∣ x.1.totalPrefixLength
  pages : ∀ p, x.2.freePages.count p = c.freePages.count p +
    (pages.take ((x.1.totalPrefixLength - prevPrefixLen) / cfg.pageSize)).count p
  slots : x.2.freeSlots = c.freeSlots

theorem Round.freed {x y : Descent × Cache} (round : Round cfg prevPrefixLen x y)
    (aligned : x.2.tree.PageAligned cfg.pageSize) (prevAligned : cfg.pageSize ∣ prevPrefixLen)
    (isPages : value.drop prevPrefixLen = blocks cfg.pageSize pages) (distinct : pages.Nodup)
    (freed : Freed cfg prevPrefixLen value pages c x) :
    Freed cfg prevPrefixLen value pages c y := by
  obtain ⟨child, touched, k, passes⟩ := round
  have step := (RadixKey.matchLen_of_aligned (aligned child passes.found.childOf.member) x.1.key).1
  rw [← passes.matched] at step
  have total' := passes.total
  have now := passes.freed
  obtain ⟨rest, divides, earlier, slots⟩ := freed
  generalize x.1.totalPrefixLength = total at *
  obtain ⟨before, isBefore⟩ := Nat.dvd_sub divides prevAligned
  obtain ⟨more, isMore⟩ := Nat.dvd_sub step (Nat.dvd_sub prevAligned divides)
  -- the freed part is a run of whole pages
  have isFreed : (x.1.value.take k).drop (prevPrefixLen - total) =
      blocks cfg.pageSize ((pages.drop before).take more) := by
    rw [drop_take, rest, drop_drop,
      show total + (prevPrefixLen - total) = prevPrefixLen + (total - prevPrefixLen) by omega,
      ← drop_drop, isPages, isBefore, isMore, Nat.mul_comm _ before, Nat.mul_comm _ more,
      drop_blocks, take_blocks]
  have laid : Laid cfg.pageSize ((pages.drop before).take more)
      ((x.1.value.take k).drop (prevPrefixLen - total)) := by
    rw [isFreed]
    exact .whole cfg.positive ((distinct.sublist (drop_sublist ..)).sublist
      (take_sublist ..))
  refine ⟨?_, ?_, ?_, passes.slots.trans slots⟩
  · rw [passes.value, rest, drop_drop, total']
  · rw [total']
    exact Nat.dvd_add divides step
  · intro p
    -- so far the pages up to the end of the walk have been freed
    have passed : (total + k - prevPrefixLen) / cfg.pageSize = before + more := by
      rw [show total + k - prevPrefixLen =
        (total - prevPrefixLen) + (k - (prevPrefixLen - total)) by omega, isBefore, isMore,
        ← Nat.mul_add, Nat.mul_div_cancel_left _ cfg.positive]
    rw [now, count_freeKv laid, earlier, total', passed, isBefore,
      Nat.mul_div_cancel_left _ cfg.positive, take_add, count_append, Nat.add_assoc]

theorem freed_of_rounds {x y : Descent × Cache}
    (rounds : Relation.ReflTransGen (Round cfg prevPrefixLen) x y)
    (aligned : x.2.tree.PageAligned cfg.pageSize) (prevAligned : cfg.pageSize ∣ prevPrefixLen)
    (isPages : value.drop prevPrefixLen = blocks cfg.pageSize pages) (distinct : pages.Nodup)
    (freed : Freed cfg prevPrefixLen value pages c x) :
    Freed cfg prevPrefixLen value pages c y := by
  induction rounds with
  | refl => exact freed
  | tail earlier round ih =>
    exact round.freed ((reshaped_of_rounds earlier).pageAligned aligned) prevAligned isPages
      distinct ih

theorem Inserts.passes_path {result : InsertResult} {spelled values' : List Nat}
    (inserts : Inserts cfg held c key value slot prevPrefixLen d middle result c')
    (aligned : middle.tree.PageAligned cfg.pageSize) (alignedKey : key.Aligned cfg.pageSize)
    (along : Along key value tokens values (d, middle)) (someRest : d.key.length ≠ 0)
    (reach : middle.tree.Reach key.extraKey rootNode spelled values' n)
    (follows : spelled <+: key.tokenIds ∨ key.tokenIds <+: spelled) :
    spelled.length ≤ tokens.length := by
  have vacant := inserts.stopped.resolve_left someRest
  have shorter : tokens.length < key.tokenIds.length := by
    rw [along.spelled, length_append]
    exact Nat.lt_add_of_pos_right (Nat.pos_of_ne_zero someRest)
  by_contra longer
  rcases follows with inside | whole
  · refine along.no_path_beyond inserts.reached.inv aligned vacant reach ?_ (Nat.le_refl _)
      (Nat.lt_of_not_le longer) (reach.dvd_length aligned)
    rw [take_length]
    exact inside
  · refine along.no_path_beyond inserts.reached.inv aligned vacant reach ?_ whole.length_le shorter
      alignedKey
    rw [← prefix_iff_eq_take.mp whole]

/-- What is given to an insertion: whole pages, of which those behind `prevPrefixLen` are new,
    and up to there the key follows a path of the tree. -/
structure Offers (cfg : CacheConfig) (c : Cache) (key : RadixKey) (value : List Nat)
    (prevPrefixLen : Nat) (pages : List Nat) : Prop where
  lengths : value.length = key.length
  aligned : key.Aligned cfg.pageSize
  prevAligned : cfg.pageSize ∣ prevPrefixLen
  isPages : value.drop prevPrefixLen = blocks cfg.pageSize pages
  distinct : pages.Nodup
  follows : ∃ spelled values n, c.tree.Reach key.extraKey rootNode spelled values n ∧
    spelled.length = prevPrefixLen ∧ (spelled <+: key.tokenIds ∨ key.tokenIds <+: spelled)

theorem Freed.rest_pages (freed : Freed cfg prevPrefixLen value pages c (d, middle))
    (offers : Offers cfg c key value prevPrefixLen pages)
    (passed : prevPrefixLen ≤ d.totalPrefixLength) :
    d.value = blocks cfg.pageSize
      (pages.drop ((d.totalPrefixLength - prevPrefixLen) / cfg.pageSize)) := by
  have behind := Nat.dvd_sub freed.divides offers.prevAligned
  rw [← drop_blocks, Nat.div_mul_cancel behind, ← offers.isPages, drop_drop,
    Nat.add_sub_cancel' passed]
  exact freed.rest

theorem Offers.all_freed {total : Nat} (offers : Offers cfg c key value prevPrefixLen pages)
    (whole : total = key.length) :
    pages.take ((total - prevPrefixLen) / cfg.pageSize) = pages := by
  apply take_of_length_le
  have length := congrArg length offers.isPages
  rw [length_drop, length_blocks, offers.lengths, ← whole] at length
  rw [length, Nat.mul_div_cancel _ cfg.positive]

theorem Finishes.counts {t : Tree} (finishes : Finishes cfg d slot t mambaExist t')
    (inv : t.Inv cfg.pageSize held) (lengths : d.value.length = d.key.length) (i : Nat) :
    t'.sum (countIndex i) = t.sum (countIndex i) + d.value.count i ∧
      t'.sum (countSlot i) = t.sum (countSlot i) +
        (if mambaExist = true then [] else [slot]).count i := by
  have noValue : d.key.length = 0 → d.value.count i = 0 := by
    intro empty
    rw [eq_nil_of_length_eq_zero (lengths.trans empty)]
    rfl
  cases finishes with
  | grown grown => exact ⟨grown.sum _ inv.shape, grown.sum _ inv.shape⟩
  | revived empty revived =>
    -- only the load of the tombstone changes
    have others : ∀ m ∈ t.fullLruList, m ≠ d.node → (t'.nodes m).load = (t.nodes m).load := by
      intro m _ different
      rw [revived.set.nodes, Function.update_of_ne different]
    have change := fun w => Tree.sum_of_load w inv.shape.forest.nodup revived.set.full
      revived.member others
    have after : (t'.nodes d.node).load =
        { (t.nodes d.node).load with mambaValue := some slot } := by
      rw [revived.set.nodes, Function.update_self]
      rfl
    rw [noValue empty]
    constructor
    · have indices := change (countIndex i)
      rw [after] at indices
      exact Nat.add_right_cancel indices
    · have slots := change (countSlot i)
      rw [after, show countSlot i (t.nodes d.node).load = 0 by
        rw [TreeNode.load, revived.tombstone]; rfl] at slots
      exact slots
  | present empty _ _ touched =>
    rw [noValue empty]
    exact ⟨touched.sum _, touched.sum _⟩

theorem Finishes.reach {t : Tree} (finishes : Finishes cfg d slot t mambaExist t')
    (inv : t.Inv cfg.pageSize held) {extraKey : Option String}
    (reach : t.Reach extraKey rootNode tokens values n) :
    t'.Reach extraKey rootNode tokens values n := by
  cases finishes with
  | grown grown => exact grown.reach_of inv.shape reach
  | revived _ revived => exact revived.set.sameTree.reach_of reach
  | present _ _ _ touched => exact touched.sameTree.reach_of reach

theorem Finishes.stored (finishes : Finishes cfg d slot middle.tree mambaExist t')
    (inv : middle.tree.Inv cfg.pageSize held) (along : Along key value tokens values (d, middle)) :
    ∃ values n, t'.Reach key.extraKey rootNode key.tokenIds values n ∧
      (t'.nodes n).mambaValue.isSome = true ∧
      (mambaExist = false → (t'.nodes n).mambaValue = some slot) := by
  have path := finishes.reach inv along.path
  have whole : d.key.length = 0 → tokens = key.tokenIds := fun empty => by
    rw [along.spelled, eq_nil_of_length_eq_zero empty, append_nil]
  cases finishes with
  | grown grown =>
    have child : t'.ChildOf key.extraKey d.node middle.tree.nextId := by
      refine ⟨grown.full.mem_iff.mpr mem_cons_self, ?_, ?_⟩
      · rw [grown.new]
      · rw [grown.new]
        exact along.extra
    have below := path.snoc child
    rw [grown.new] at below
    rw [along.spelled]
    have state : (t'.nodes middle.tree.nextId).mambaValue = some slot := by rw [grown.new]
    exact ⟨_, _, below, by rw [state]; rfl, fun _ => state⟩
  | revived empty revived =>
    rw [whole empty] at path
    have state : (t'.nodes d.node).mambaValue = some slot := by
      rw [revived.set.nodes, Function.update_self]
    exact ⟨_, _, path, by rw [state]; rfl, fun _ => state⟩
  | present empty _ hasState touched =>
    rw [whole empty] at path
    exact ⟨_, _, path, by rw [touched.nodes]; exact hasState, by simp⟩

theorem Finishes.paged {t : Tree} (finishes : Finishes cfg d slot t mambaExist t')
    (inv : t.Inv cfg.pageSize held) (paged : t.Paged cfg.pageSize) (distinct : pages.Nodup)
    (isValue : d.key.length ≠ 0 → d.value = blocks cfg.pageSize pages) :
    t'.Paged cfg.pageSize := by
  cases finishes with
  | grown grown =>
    intro n member
    rcases mem_cons.mp (grown.full.mem_iff.mp member) with rfl | old
    · have someKey : d.key.length ≠ 0 := fun empty =>
        grown.nonempty (eq_nil_of_length_eq_zero empty)
      rw [grown.new]
      exact ⟨pages, distinct, isValue someKey⟩
    · rw [(grown.old (inv.shape.ne_new (.inr old))).2.2.1]
      exact paged n old
  | revived _ revived => exact paged.sameTree revived.set.sameTree
  | present _ _ _ touched => exact paged.sameTree touched.sameTree

theorem insert_along (slot prevPrefixLen : Nat) (sound : c.Sound cfg held)
    (enabled : cfg.disable = false) (someKey : key.length ≠ 0)
    (lengths : value.length = key.length) :
    ∃ result c' d middle tokens values,
      c.insert cfg key value slot prevPrefixLen = .ok (result, c') ∧
        Inserts cfg held c key value slot prevPrefixLen d middle result c' ∧
        Along key value tokens values (d, middle) := by
  obtain ⟨result, c', d, middle, ran, inserts⟩ :=
    insert_ok slot prevPrefixLen enabled someKey lengths sound.inv sound.leaves
  have begins : Descending cfg held (⟨rootNode, key, value, 0⟩, c) :=
    ⟨sound.inv, sound.leaves, .inl rfl, fun notRoot => absurd rfl notRoot, lengths,
      fun isEmpty => absurd isEmpty someKey⟩
  obtain ⟨tokens, values, along⟩ := along_of_rounds inserts.rounds begins
    (sound.paged.aligned sound.inv.shape) ⟨.here rootNode, rfl, rfl, rfl, rfl⟩
  exact ⟨result, c', d, middle, tokens, values, ran, inserts, along⟩

section Inserts

variable {d : Descent} {middle : Cache} {result : InsertResult} {tokens values : List Nat}

section

variable (inserts : Inserts cfg held c key value slot prevPrefixLen d middle result c')

include inserts

section

variable (sound : c.Sound cfg held)

include sound

theorem Inserts.middleAligned :
    middle.tree.PageAligned cfg.pageSize :=
  (reshaped_of_rounds inserts.rounds).pageAligned (sound.paged.aligned sound.inv.shape)

theorem Inserts.freed (offers : Offers cfg c key value prevPrefixLen pages) :
    Freed cfg prevPrefixLen value pages c (d, middle) := by
  have start : Freed cfg prevPrefixLen value pages c (⟨rootNode, key, value, 0⟩, c) := by
    refine ⟨rfl, Nat.dvd_zero _, fun p => ?_, rfl⟩
    rw [Nat.zero_sub, Nat.zero_div, take_zero, count_nil, Nat.add_zero]
  exact freed_of_rounds inserts.rounds (sound.paged.aligned sound.inv.shape) offers.prevAligned
    offers.isPages offers.distinct start

theorem Inserts.leaf_pages (offers : Offers cfg c key value prevPrefixLen pages)
    (along : Along key value tokens values (d, middle)) (someRest : d.key.length ≠ 0) :
    d.value = blocks cfg.pageSize
      (pages.drop ((d.totalPrefixLength - prevPrefixLen) / cfg.pageSize)) := by
  obtain ⟨spelled, values', n, reach, length, follows⟩ := offers.follows
  have passed := inserts.passes_path (inserts.middleAligned sound) offers.aligned along someRest
    ((reshaped_of_rounds inserts.rounds).reach_of cfg.positive sound.inv reach) follows
  have total : d.totalPrefixLength = tokens.length := along.total
  apply (inserts.freed sound offers).rest_pages offers
  omega

theorem Inserts.count_rest (offers : Offers cfg c key value prevPrefixLen pages)
    (along : Along key value tokens values (d, middle)) (i : Nat) :
    d.value.count i = (pages.drop
      ((d.totalPrefixLength - prevPrefixLen) / cfg.pageSize)).count (i / cfg.pageSize) := by
  by_cases arrived : d.key.length = 0
  · have total : d.totalPrefixLength = tokens.length := along.total
    have whole : d.totalPrefixLength = key.length := by
      rw [total, RadixKey.length, along.spelled,
        show (d, middle).1.key.tokenIds = [] from eq_nil_of_length_eq_zero arrived, append_nil]
    have parts := take_append_drop ((d.totalPrefixLength - prevPrefixLen) / cfg.pageSize) pages
    have noRest : pages.drop ((d.totalPrefixLength - prevPrefixLen) / cfg.pageSize) = [] := by
      rw [offers.all_freed whole] at parts
      exact append_right_eq_self.mp parts
    have noValue : d.value = [] :=
      eq_nil_of_length_eq_zero (inserts.reached.lengths.trans arrived)
    rw [noRest, noValue]
    rfl
  · rw [inserts.leaf_pages sound offers along arrived, count_blocks cfg.positive]

theorem Inserts.exist (alignedKey : key.Aligned cfg.pageSize)
    (along : Along key value tokens values (d, middle))
    (hasState : c.tree.HasState key.extraKey key.tokenIds) : result.mambaExist = true := by
  have aligned := inserts.middleAligned sound
  have inv := inserts.reached.inv
  obtain ⟨values', n, reach, isState⟩ :=
    ((reshaped_of_rounds inserts.rounds).hasState_iff cfg.positive sound.inv).mpr hasState
  -- the insertion has arrived at the node with the state
  have arrived : d.key.length = 0 := by
    by_contra someRest
    have passed := inserts.passes_path aligned alignedKey along someRest reach (.inl prefix_rfl)
    rw [along.spelled, length_append] at passed
    have noRest : d.key.tokenIds.length = 0 := by
      dsimp only at passed
      omega
    exact someRest noRest
  have path := along.path
  rw [show tokens = key.tokenIds by
    rw [along.spelled, eq_nil_of_length_eq_zero arrived, append_nil]] at path
  have isNode : n = d.node := path.node_unique inv.shape aligned reach
  rw [isNode] at isState
  have finishes := inserts.finishes
  generalize result.mambaExist = mambaExist at finishes ⊢
  cases finishes with
  | grown grown => exact absurd (eq_nil_of_length_eq_zero arrived) grown.nonempty
  | revived _ revived =>
    rw [revived.tombstone] at isState
    cases isState
  | present => rfl

theorem Inserts.turn (enabled : cfg.disable = false)
    (offers : Offers cfg c key value prevPrefixLen pages)
    (along : Along key value tokens values (d, middle)) :
    Turn cfg held held c c' pages [] (if result.mambaExist = true then [] else [slot]) [] := by
  have reshaped := reshaped_of_rounds inserts.rounds
  have inv := inserts.reached.inv
  have freed := inserts.freed sound offers
  refine ⟨⟨inserts.finishes.inv inv, inserts.finishes.leaves inserts.reached.leaves, ?_, ?_⟩,
    ?_, ?_, ?_⟩
  · exact inserts.finishes.paged inv (sound.paged.reshaped sound.inv cfg.positive reshaped)
      (offers.distinct.sublist (drop_sublist ..)) (inserts.leaf_pages sound offers along)
  · intro disabled
    rw [enabled] at disabled
    cases disabled
  · exact fun n _ extraKey tokens values reach =>
      inserts.finishes.reach inv (reshaped.reach_of cfg.positive sound.inv reach)
  · intro i
    -- the pages that the tree had were freed on the way, and the leaf takes the others
    have counts := (inserts.finishes.counts inv inserts.reached.lengths i).1
    have walked : middle.tree.sum (countIndex i) = c.tree.sum (countIndex i) :=
      reshaped.sum cfg.positive sound.inv (Tree.countIndex_divides i)
    have free : middle.freePages.count _ = _ := freed.pages (i / cfg.pageSize)
    have all := congrArg (count (i / cfg.pageSize)) (take_append_drop
      ((d.totalPrefixLength - prevPrefixLen) / cfg.pageSize) pages)
    rw [count_append] at all
    rw [kvCount, kvCount, inserts.freePages, counts, inserts.count_rest sound offers along i,
      free, count_nil]
    dsimp only
    omega
  · intro i
    have counts := (inserts.finishes.counts inv inserts.reached.lengths i).2
    have walked : middle.tree.sum (countSlot i) = c.tree.sum (countSlot i) :=
      reshaped.sum cfg.positive sound.inv (Tree.countSlot_divides i)
    rw [slotCount, slotCount, inserts.freeSlots, counts, freed.slots, walked, count_nil,
      Nat.add_zero, Nat.add_assoc]

end

end

end Inserts

structure Inserted (cfg : CacheConfig) (held : List NodeId) (c : Cache) (key : RadixKey)
    (slot : Nat) (pages : List Nat) (result : InsertResult) (c' : Cache) : Prop where
  turn : Turn cfg held held c c' pages [] (if result.mambaExist = true then [] else [slot]) []
  hasState : key.length ≠ 0 → c'.tree.HasState key.extraKey key.tokenIds
  found : c.tree.HasState key.extraKey key.tokenIds → result.mambaExist = true
  isNew : result.mambaExist = false → ∃ values n,
    c'.tree.Reach key.extraKey rootNode key.tokenIds values n ∧
      (c'.tree.nodes n).mambaValue = some slot
  prefixLen : result.prefixLen ≤ key.length

theorem insert_turn (slot : Nat) (sound : c.Sound cfg held) (enabled : cfg.disable = false)
    (offers : Offers cfg c key value prevPrefixLen pages) :
    Calm safe (fun r => Inserted cfg held c key slot pages r.1 r.2)
      (c.insert cfg key value slot prevPrefixLen) := by
  by_cases empty : key.length = 0
  · -- nothing is stored, and there are no pages
    have noPages : pages = [] := by
      have all := offers.all_freed empty.symm
      rw [Nat.zero_sub, Nat.zero_div] at all
      exact all.symm
    rw [insert, enabled, if_pos empty, noPages]
    exact ⟨.refl sound, fun someKey => absurd empty someKey, fun _ => rfl, by simp, Nat.zero_le _⟩
  obtain ⟨result, c', d, middle, tokens, values, ran, inserts, along⟩ :=
    insert_along slot prevPrefixLen sound enabled empty offers.lengths
  obtain ⟨values', n, path, hasState, isNew⟩ := inserts.finishes.stored inserts.reached.inv along
  refine .of_ok ran ⟨inserts.turn sound enabled offers along, fun _ => ⟨values', n, path, hasState⟩,
    inserts.exist sound offers.aligned along, fun new => ⟨values', n, path, isNew new⟩, ?_⟩
  have total : d.totalPrefixLength = tokens.length := along.total
  rw [inserts.prefixLen, total, RadixKey.length, along.spelled, length_append]
  exact Nat.le_add_right ..

end Insertion

end Cache

end Engram.Radix
