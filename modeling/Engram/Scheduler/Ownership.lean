import Engram.Lib.Transition
import Engram.Scheduler.Memory

/-!
# Who owns a slot

A slot is owned by the free list, by a node of the tree or by a request, which has one
for its own state and those of its ping-pong buffer. Every operation on the memory
moves slots between these owners and never changes how many owners a slot has; neither
does it write a slot whose owner takes no part (`Moves`). A cache that keeps no Mamba
states has none in its tree, and every ping-pong buffer has the size the server asks for.
-/

namespace Engram.Scheduler

open Engram.Lib Engram.Memory Engram.Snapshot List

variable {τ : Type} {reqs others : List Req} {cache : TreeCache} {req req' : Req}
  {mem mem' : Memory τ} {slot : Nat}

/-- Owners of a slot in the memory: entries of the free list and nodes of the tree. -/
def Memory.count (mem : Memory τ) (slot : Nat) : Nat :=
  mem.pool.freeSlots.count slot + mem.tree.count slot

/-- The slots that the fields of a request name. -/
def Req.named (req : Req) : List Nat :=
  req.mambaPoolIdx.toList ++ req.trackBufferToFree none

/-- An unfinished request owns the slots it names. A finished one has given them away,
    even where its fields still name them. -/
def Req.slots (req : Req) : List Nat :=
  if req.finishedReason.isNone then req.named else []

def Req.owns (req : Req) (slot : Nat) : Bool :=
  slot ∈ req.slots

def ownedSlots (reqs : List Req) : List Nat :=
  reqs.flatMap Req.slots

def ownersAmong (reqs : List Req) (slot : Nat) : Nat :=
  (ownedSlots reqs).count slot

def rowsHeld (reqs : List Req) : Nat :=
  reqs.countP (·.reqPoolIdx.isSome)

@[simp] theorem ownedSlots_append (reqs others : List Req) :
    ownedSlots (reqs ++ others) = ownedSlots reqs ++ ownedSlots others :=
  flatMap_append

@[simp] theorem ownersAmong_nil (slot : Nat) : ownersAmong [] slot = 0 := rfl

@[simp] theorem ownersAmong_append (reqs others : List Req) (slot : Nat) :
    ownersAmong (reqs ++ others) slot = ownersAmong reqs slot + ownersAmong others slot := by
  rw [ownersAmong, ownedSlots_append, count_append]
  rfl

theorem ownersAmong_cons (req : Req) (reqs : List Req) (slot : Nat) :
    ownersAmong (req :: reqs) slot = ownersAmong [req] slot + ownersAmong reqs slot :=
  ownersAmong_append [req] reqs slot

theorem ownedSlots_perm (perm : reqs.Perm others) : (ownedSlots reqs).Perm (ownedSlots others) :=
  perm.flatMap_right _

theorem ownersAmong_perm (perm : reqs.Perm others) (slot : Nat) :
    ownersAmong reqs slot = ownersAmong others slot :=
  (ownedSlots_perm perm).count_eq slot

theorem ownersAmong_pos {req : Req} {slot : Nat} (member : req ∈ reqs)
    (owns : req.owns slot = true) :
    0 < ownersAmong reqs slot :=
  count_pos_iff.mpr (mem_flatMap.mpr ⟨req, member, by simpa [Req.owns] using owns⟩)

theorem ownersAmong_eq_zero (nothing : ∀ req ∈ reqs, req.slots = []) (slot : Nat) :
    ownersAmong reqs slot = 0 := by
  have empty : ownedSlots reqs = [] := flatMap_eq_nil_iff.mpr nothing
  rw [ownersAmong, empty, count_nil]

@[simp] theorem rowsHeld_nil : rowsHeld [] = 0 := rfl

@[simp] theorem rowsHeld_append (reqs others : List Req) :
    rowsHeld (reqs ++ others) = rowsHeld reqs + rowsHeld others :=
  countP_append

theorem rowsHeld_perm (perm : reqs.Perm others) :
    rowsHeld reqs = rowsHeld others :=
  perm.countP_eq _

/-- The memory together with the requests an operation works on. -/
def holding (mem : Memory τ) (reqs : List Req) : Holding Nat (SlotState τ) where
  count := fun slot => mem.count slot + ownersAmong reqs slot
  content := mem.pool.cache

/-- The ping-pong buffer of a request has the size the server asks for. -/
def Req.Fits (cache : TreeCache) (req : Req) : Prop :=
  ∀ buffer ∈ req.mambaPingPongTrackBuffer, buffer.slots.length = cache.trackBufferSize

structure Moves (cache : TreeCache) (mem : Memory τ) (reqs : List Req) (mem' : Memory τ)
    (reqs' : List Req) : Prop where
  slots : (holding mem reqs).Transfer (holding mem' reqs')
  rows : mem'.freeRows.length + rowsHeld reqs' = mem.freeRows.length + rowsHeld reqs
  size : mem'.pool.size = mem.pool.size
  tree : cache.keepsMamba = false → mem.tree = [] → mem'.tree = []
  buffers : (∀ req ∈ reqs, req.Fits cache) → ∀ req ∈ reqs', req.Fits cache

namespace Moves

variable {mem mem' mem'' : Memory τ} {reqs reqs' reqs'' : List Req}

theorem refl (mem : Memory τ) (reqs : List Req) : Moves cache mem reqs mem reqs :=
  ⟨.refl _, rfl, rfl, fun _ => id, id⟩

theorem trans (first : Moves cache mem reqs mem' reqs')
    (second : Moves cache mem' reqs' mem'' reqs'') : Moves cache mem reqs mem'' reqs'' where
  slots := first.slots.trans second.slots
  rows := second.rows.trans first.rows
  size := second.size.trans first.size
  tree := fun keepsNone => second.tree keepsNone ∘ first.tree keepsNone
  buffers := second.buffers ∘ first.buffers

theorem beside (moves : Moves cache mem reqs mem' reqs') (others : List Req) :
    Moves cache mem (reqs ++ others) mem' (reqs' ++ others) where
  slots := by
    have framed := moves.slots.beside (ownersAmong others)
    constructor
    · intro slot
      have same := framed.count slot
      simp only [holding, Holding.beside, ownersAmong_append] at same ⊢
      omega
    · intro slot unowned
      refine framed.frame slot ?_
      simp only [holding, Holding.beside, ownersAmong_append] at unowned ⊢
      omega
  rows := by
    have same := moves.rows
    rw [rowsHeld_append, rowsHeld_append]
    omega
  size := moves.size
  tree := moves.tree
  buffers := by
    intro fit
    rw [forall_mem_append] at fit ⊢
    exact ⟨moves.buffers fit.1, fit.2⟩

theorem perm {others' : List Req} (moves : Moves cache mem reqs mem' reqs')
    (before : reqs.Perm others) (after : reqs'.Perm others') :
    Moves cache mem others mem' others' where
  slots := by
    constructor
    · intro slot
      have same := moves.slots.count slot
      simp only [holding, ownersAmong_perm before, ownersAmong_perm after] at same ⊢
      exact same
    · intro slot unowned
      refine moves.slots.frame slot ?_
      simp only [holding, ownersAmong_perm before] at unowned ⊢
      exact unowned
  rows := by
    rw [← rowsHeld_perm before, ← rowsHeld_perm after]
    exact moves.rows
  size := moves.size
  tree := moves.tree
  buffers := fun fit req member => moves.buffers
    (fun other held => fit other (before.mem_iff.mp held)) req (after.mem_iff.mpr member)

end Moves

/-! ### The free list and the tree -/

theorem ownersAmong_singleton (req : Req) (slot : Nat) :
    ownersAmong [req] slot = req.slots.count slot := by
  simp [ownersAmong, ownedSlots]

theorem Req.slots_of_unfinished (unfinished : req.finishedReason = none) :
    req.slots = req.named := by
  simp [Req.slots, unfinished]

theorem Req.slots_of_finished (finished : req.finishedReason.isSome = true) : req.slots = [] := by
  simp only [Req.slots, Option.isNone_eq_false_iff.mpr finished, Bool.false_eq_true, if_false]

theorem Req.slots_of_none (slot : req.mambaPoolIdx = none)
    (buffer : req.mambaPingPongTrackBuffer = none) : req.slots = [] := by
  simp [Req.slots, Req.named, Req.trackBufferToFree, slot, buffer]

theorem Req.owns_of_named {slot : Nat} (unfinished : req.finishedReason = none)
    (named : req.mambaPoolIdx = some slot) : req.owns slot = true := by
  simp [Req.owns, Req.slots_of_unfinished unfinished, Req.named, named]

theorem TrackBuffer.slots_perm (buffer : TrackBuffer) (idx : Nat) :
    (buffer.get idx :: buffer.others idx).Perm buffer.slots := by
  rcases buffer with ⟨first, _ | second⟩
  · exact .refl _
  · simp only [get, others, slots]
    split
    · exact .refl _
    · exact .swap ..

theorem TrackBuffer.set_slots_perm (buffer : TrackBuffer) (idx slot : Nat) :
    (slot :: buffer.others idx).Perm (buffer.set idx slot).slots := by
  rcases buffer with ⟨first, _ | second⟩
  · exact .refl _
  · simp only [set, others]
    split
    · exact .refl _
    · exact .swap ..

structure Memory.Takes (mem : Memory τ) (slots : List Nat) (mem' : Memory τ) : Prop where
  count : ∀ slot, mem'.count slot + slots.count slot = mem.count slot
  cache : mem'.pool.cache = mem.pool.cache
  rows : mem'.freeRows = mem.freeRows
  size : mem'.pool.size = mem.pool.size
  tree : mem.tree = [] → mem'.tree = []

structure Memory.Rearranged (mem mem' : Memory τ) : Prop where
  count : ∀ slot, mem'.count slot = mem.count slot
  cache : mem'.pool.cache = mem.pool.cache
  rows : mem'.freeRows = mem.freeRows
  size : mem'.pool.size = mem.pool.size
  tree : mem.tree = [] → mem'.tree = []

theorem Memory.Rearranged.refl (mem : Memory τ) : mem.Rearranged mem :=
  ⟨fun _ => rfl, rfl, rfl, rfl, id⟩

theorem Memory.Rearranged.trans {mem'' : Memory τ} (first : mem.Rearranged mem')
    (second : mem'.Rearranged mem'') : mem.Rearranged mem'' where
  count := fun slot => (second.count slot).trans (first.count slot)
  cache := second.cache.trans first.cache
  rows := second.rows.trans first.rows
  size := second.size.trans first.size
  tree := second.tree ∘ first.tree

theorem Memory.Rearranged.moves (same : mem.Rearranged mem') (reqs : List Req) :
    Moves cache mem reqs mem' reqs where
  slots := by
    constructor
    · intro slot
      exact congrArg (· + ownersAmong reqs slot) (same.count slot)
    · intro slot _
      exact congrFun same.cache slot
  rows := by
    rw [same.rows]
  size := same.size
  tree := fun _ => same.tree
  buffers := id

variable {slots : List Nat}

theorem Memory.Takes.nil (mem : Memory τ) : mem.Takes [] mem :=
  ⟨fun _ => rfl, rfl, rfl, rfl, id⟩

theorem Memory.Takes.append {slots' : List Nat} {mem'' : Memory τ} (first : mem.Takes slots mem')
    (second : mem'.Takes slots' mem'') : mem.Takes (slots ++ slots') mem'' where
  count := by
    intro slot
    have one := first.count slot
    have two := second.count slot
    rw [count_append]
    omega
  cache := second.cache.trans first.cache
  rows := second.rows.trans first.rows
  size := second.size.trans first.size
  tree := second.tree ∘ first.tree

theorem Memory.Rearranged.takes {mem'' : Memory τ} (same : mem.Rearranged mem')
    (taken : mem'.Takes slots mem'') : mem.Takes slots mem'' where
  count := fun other => (taken.count other).trans (same.count other)
  cache := taken.cache.trans same.cache
  rows := taken.rows.trans same.rows
  size := taken.size.trans same.size
  tree := taken.tree ∘ same.tree

theorem Memory.evictFrom_count (locked : List Nat) (n : Nat) (tree : List Nat) (slot : Nat) :
    (evictFrom locked n tree).1.count slot + (evictFrom locked n tree).2.count slot =
      tree.count slot := by
  induction tree generalizing n with
  | nil =>
    cases n with
    | zero => rfl
    | succ n => rfl
  | cons node tree ih =>
    cases n with
    | zero => simp [evictFrom]
    | succ n =>
      unfold evictFrom
      split
      · have rest := ih (n + 1)
        simp only [count_cons] at rest ⊢
        omega
      · have rest := ih n
        simp only [count_cons] at rest ⊢
        omega

theorem Memory.evict_rearranged (mem : Memory τ) (locked : List Nat) (n : Nat) :
    mem.Rearranged (mem.evict locked n) where
  count := by
    intro slot
    have split := evictFrom_count locked n mem.tree slot
    simp only [evict, count, MambaPool.free, count_append]
    omega
  cache := rfl
  rows := rfl
  size := rfl
  tree := by
    intro none
    cases n <;> simp only [evict, none, evictFrom]

theorem Memory.touch_rearranged (mem : Memory τ) (lru : List Nat) :
    mem.Rearranged (mem.touch lru) := by
  unfold touch
  split
  · next permuted =>
    have perm : lru.Perm mem.tree := isPerm_iff.mp permuted
    refine ⟨fun slot => congrArg (_ + ·) (perm.count_eq slot), rfl, rfl, rfl, ?_⟩
    intro none
    exact perm_nil.mp (none ▸ perm)
  · exact .refl mem

theorem Memory.allocSlot_eq_some (allocated : mem.allocSlot = some (slot, mem')) :
    ∃ rest, mem.pool.freeSlots = slot :: rest ∧
      mem' = { mem with pool := { mem.pool with freeSlots := rest } } := by
  unfold allocSlot at allocated
  split at allocated
  · next first pool taken =>
    obtain ⟨_, rest, listed, single, rfl⟩ := MambaPool.alloc_one_eq_some_iff.mp taken
    cases single
    cases allocated
    exact ⟨rest, listed, rfl⟩
  · cases allocated

theorem Memory.allocSlot_takes (allocated : mem.allocSlot = some (slot, mem')) :
    mem.Takes [slot] mem' := by
  obtain ⟨rest, listed, rfl⟩ := Memory.allocSlot_eq_some allocated
  refine ⟨?_, rfl, rfl, rfl, id⟩
  intro other
  simp only [count, listed, count_cons, count_nil]
  omega

theorem Memory.allocSlot_eq_none_iff :
    mem.allocSlot = none ↔ mem.pool.freeSlots = [] := by
  rw [← MambaPool.alloc_one_eq_none_iff]
  unfold allocSlot
  split
  · next first pool taken => simp [taken]
  · next other =>
    cases taken : mem.pool.alloc 1 with
    | none => simp
    | some result =>
      obtain ⟨slots, pool⟩ := result
      obtain ⟨slot, rest, _, single, _⟩ := MambaPool.alloc_one_eq_some_iff.mp taken
      rw [single] at taken
      exact absurd taken (other slot pool)

theorem Memory.freeSlots_takes (mem : Memory τ) (slots : List Nat) :
    (mem.freeSlots slots).Takes slots mem where
  count := by
    intro other
    simp only [freeSlots, count, MambaPool.free, count_append]
    omega
  cache := rfl
  rows := rfl
  size := rfl
  tree := id

theorem Memory.freeSlot_takes (mem : Memory τ) (slot : Nat) :
    (mem.freeSlot slot).Takes [slot] mem :=
  mem.freeSlots_takes [slot]

theorem Memory.donate_takes (mem : Memory τ) (slot : Nat) :
    (mem.donate slot).Takes [slot] mem where
  count := by
    intro other
    simp only [donate, count, count_append]
    omega
  cache := rfl
  rows := rfl
  size := rfl
  tree := by simp [donate]

/-! ### The operations -/

open Engram.Lib.Transition

/-- An operation on one request, from what it does to the owners of each slot. -/
theorem moves_single
    (count : ∀ slot, mem'.count slot + req'.slots.count slot = mem.count slot +
      req.slots.count slot)
    (content : mem'.pool.cache = mem.pool.cache)
    (rows : mem'.freeRows.length + rowsHeld [req'] = mem.freeRows.length + rowsHeld [req])
    (size : mem'.pool.size = mem.pool.size)
    (tree : cache.keepsMamba = false → mem.tree = [] → mem'.tree = [])
    (buffer : req.Fits cache → req'.Fits cache) : Moves cache mem [req] mem' [req'] where
  slots := by
    constructor
    · intro slot
      simpa only [holding, ownersAmong_singleton] using count slot
    · intro slot _
      exact congrFun content slot
  rows := rows
  size := size
  tree := tree
  buffers := by
    simpa only [forall_mem_singleton] using buffer

theorem Memory.Takes.moves_alloc (taken : mem.Takes slots mem')
    (unfinished : req.finishedReason = none) (unfinished' : req'.finishedReason = none)
    (named : (slots ++ req.named).Perm req'.named) (sameRow : req'.reqPoolIdx = req.reqPoolIdx)
    (buffer : req.Fits cache → req'.Fits cache) :
    Moves cache mem [req] mem' [req'] := by
  refine moves_single ?_ taken.cache (by simp [rowsHeld, taken.rows, sameRow]) taken.size
    (fun _ => taken.tree) buffer
  intro slot
  have split := taken.count slot
  have joined := named.count_eq slot
  rw [count_append] at joined
  rw [Req.slots_of_unfinished unfinished, Req.slots_of_unfinished unfinished']
  omega

theorem moves_relabel (mem : Memory τ) (sameSlot : req'.mambaPoolIdx = req.mambaPoolIdx)
    (sameBuffer : req'.mambaPingPongTrackBuffer = req.mambaPingPongTrackBuffer)
    (sameReason : req'.finishedReason = req.finishedReason)
    (sameRow : req'.reqPoolIdx = req.reqPoolIdx) : Moves cache mem [req] mem [req'] := by
  have same : req'.slots = req.slots := by
    simp only [Req.slots, Req.named, Req.trackBufferToFree, sameSlot, sameBuffer, sameReason]
  refine moves_single (by rw [same]; exact fun _ => rfl) rfl (by simp [rowsHeld, sameRow]) rfl
    (fun _ => id) ?_
  unfold Req.Fits
  rw [sameBuffer]
  exact id

/-- The assertions and exceptions that the invariants of the requests do not exclude. -/
structure Tolerates (P : Fault → Prop) : Prop where
  onlyMambaRadixCache : P .onlyMambaRadixCache
  canNotAllocMambaCache : P .canNotAllocMambaCache
  outOfRequestRows : P .outOfRequestRows
  chunkedReqPresent : P .chunkedReqPresent
  emptyWaitingQueue : P .emptyWaitingQueue

theorem tolerates_all : Tolerates (fun _ => True) :=
  ⟨trivial, trivial, trivial, trivial, trivial⟩

variable {P : Fault → Prop} (tolerates : Tolerates P)

include tolerates

theorem Memory.allocMambaSlot_takes (mem : Memory τ) (locked : List Nat) :
    Ends P (fun out => mem.Takes [out.1] out.2) (mem.allocMambaSlot locked) := by
  unfold allocMambaSlot
  split
  · next taken => exact allocSlot_takes taken
  · split
    · next taken => exact (mem.evict_rearranged locked 1).takes (allocSlot_takes taken)
    · exact tolerates.canNotAllocMambaCache

/-- All that `init_next_round_input` can do: nothing to the memory on a miss; on a hit a
    copy is planned, into the slot the request has or into a new one. -/
theorem initNextRoundInput_cases (cache : TreeCache) (locked : List Nat) (mem : Memory τ)
    (req : Req) (hit : Match) :
    Ends P (fun out => (∃ found, out = (mem, { req.resetFillIds with prefixLen := found })) ∨
      ∃ node, hit.node cache mem = some node ∧
        ((mem.Rearranged out.1 ∧
          out.2 = { req.resetFillIds with
            prefixLen := hit.prefixLen, mambaCowSrcIndex := some node, mambaNeedsClear := false }) ∨
        ∃ slot, req.mambaPoolIdx = none ∧ mem.Takes [slot] out.1 ∧
          out.2 = { req.resetFillIds with
            prefixLen := hit.prefixLen, mambaCowSrcIndex := some node, mambaNeedsClear := false,
            mambaPoolIdx := some slot }))
      (initNextRoundInput cache locked mem req hit) := by
  unfold initNextRoundInput
  simp only
  split
  · exact .inl ⟨_, rfl⟩
  next node found =>
  split
  · exact .inr ⟨node, found, .inl ⟨mem.touch_rearranged hit.lru, rfl⟩⟩
  next unnamed =>
  refine (Memory.allocMambaSlot_takes tolerates (mem.touch hit.lru) (node :: locked)).bind ?_
  intro out _ takes
  exact .inr ⟨node, found, .inr ⟨out.1, by simpa [Req.resetFillIds] using unnamed,
    (mem.touch_rearranged hit.lru).takes takes, rfl⟩⟩

theorem initNextRoundInput_moves (locked : List Nat) (mem : Memory τ)
    (unfinished : req.finishedReason = none) (hit : Match) :
    Ends P (fun out => Moves cache mem [req] out.1 [out.2] ∧ out.2.finishedReason = none ∧
        out.2.reqPoolIdx = req.reqPoolIdx ∧
        out.2.mambaPingPongTrackBuffer = req.mambaPingPongTrackBuffer)
      (initNextRoundInput cache locked mem req hit) := by
  refine (initNextRoundInput_cases tolerates cache locked mem req hit).mono ?_
  rintro ⟨mem', req'⟩ (⟨found, same⟩ | ⟨node, -, ⟨same, rfl⟩ | ⟨slot, unnamed, takes, rfl⟩⟩)
  · cases same
    exact ⟨moves_relabel _ rfl rfl rfl rfl, unfinished, rfl, rfl⟩
  · exact ⟨(same.moves [req]).trans (moves_relabel _ rfl rfl rfl rfl), unfinished, rfl, rfl⟩
  · refine ⟨takes.moves_alloc unfinished unfinished ?_ rfl id, unfinished, rfl, rfl⟩
    simp [Req.named, Req.trackBufferToFree, Req.resetFillIds, unnamed]

omit tolerates

structure Releases (cache : TreeCache) (mem : Memory τ) (req : Req) (mem' : Memory τ)
    (req' : Req) : Prop where
  count : ∀ slot, mem'.count slot = mem.count slot + req.named.count slot
  tree : cache.keepsMamba = false → mem.tree = [] → mem'.tree = []
  cache : mem'.pool.cache = mem.pool.cache
  rows : mem'.freeRows.length + rowsHeld [req'] = mem.freeRows.length + rowsHeld [req]
  size : mem'.pool.size = mem.pool.size
  reason : req'.finishedReason = req.finishedReason
  uid : req'.uid = req.uid
  buffer : req'.mambaPingPongTrackBuffer = req.mambaPingPongTrackBuffer

/-- The memory `base` has got some slots of the ping-pong buffer, and the slot of the
    request and the rest of the buffer go to the free list. -/
theorem releases_freed {base : Memory τ} {donated : List Nat} {toKeep : Option Nat} {slot : Nat}
    (named : req.mambaPoolIdx = some slot) (given : base.Takes donated mem)
    (tree : cache.keepsMamba = false → mem.tree = [] → base.tree = [])
    (whole : (donated ++ req.trackBufferToFree toKeep).Perm (req.trackBufferToFree none))
    (row : req'.reqPoolIdx = req.reqPoolIdx) (reason : req'.finishedReason = req.finishedReason)
    (uid : req'.uid = req.uid)
    (buffer : req'.mambaPingPongTrackBuffer = req.mambaPingPongTrackBuffer) :
    Releases cache mem req ((base.freeSlot slot).freeSlots (req.trackBufferToFree toKeep))
      req' where
  count := by
    intro other
    have freed := (Memory.freeSlots_takes (base.freeSlot slot)
      (req.trackBufferToFree toKeep)).count other
    have own := (base.freeSlot_takes slot).count other
    have added := given.count other
    have parts := whole.count_eq other
    simp only [count_append, Req.named, named, Option.toList_some] at parts ⊢
    omega
  cache := given.cache.symm
  rows := by
    simp [rowsHeld, row, Memory.freeSlot, Memory.freeSlots, given.rows]
  size := given.size.symm
  tree := tree
  reason := reason
  uid := uid
  buffer := buffer

/-- A tree that supports Mamba states takes the request's slots back, one as a node or
    all of them into the free list. -/
theorem cacheFinishedReq_releases (mem : Memory τ) (slot : req.mambaPoolIdx.isSome = true)
    (isInsert mambaExist : Bool) (supported : cache.supportsMamba = true) :
    Ends P (fun out => Releases cache mem req out.1 out.2 ∧ out.2.reqPoolIdx = req.reqPoolIdx ∧
        (isInsert = false → out.2.mambaPoolIdx = none))
      (cacheFinishedReq cache mem req isInsert mambaExist) := by
  obtain ⟨own, named⟩ := Option.isSome_iff_exists.mp slot
  unfold cacheFinishedReq
  simp only [supported, not_true, if_false, freeMambaCache, named]
  split
  · exact ⟨releases_freed named (.nil mem) (fun _ => id) (.refl _) rfl rfl rfl rfl, rfl,
      fun _ => rfl⟩
  next enabled =>
  have keeps : cache.keepsMamba = true := by
    simp only [TreeCache.supportsMamba] at supported
    simp [TreeCache.keepsMamba, supported, enabled]
  split
  · next bufferless =>
    split
    · next inserted =>
      refine ⟨⟨?_, by simp [keeps], rfl, rfl, rfl, rfl, rfl, rfl⟩, rfl, ?_⟩
      · intro other
        have given := (mem.donate_takes own).count other
        simpa [Req.named, named, Req.trackBufferToFree, bufferless] using given.symm
      · intro notInserted
        simp [notInserted] at inserted
    · exact ⟨releases_freed named (.nil mem) (fun _ => id) (.refl _) rfl rfl rfl rfl, rfl,
        fun _ => rfl⟩
  · next buffer held =>
    split
    · -- the tree gets the slot of the tracked state, the free list all others
      refine ⟨releases_freed named (mem.donate_takes _) (by simp [keeps]) ?_ rfl rfl rfl rfl, rfl,
        fun _ => rfl⟩
      simp only [Req.trackBufferToFree, held]
      exact buffer.slots_perm _
    · exact ⟨releases_freed named (.nil mem) (fun _ => id) (.refl _) rfl rfl rfl rfl, rfl,
        fun _ => rfl⟩

theorem Releases.freeRow {row : Nat} (released : Releases cache mem req mem' req')
    (held : req'.reqPoolIdx = some row) :
    Releases cache mem req { mem' with freeRows := mem'.freeRows ++ [row] }
      { req' with reqPoolIdx := none } where
  count := released.count
  cache := released.cache
  rows := by
    have same := released.rows
    simp only [rowsHeld, held, countP_cons] at same ⊢
    simpa using same
  size := released.size
  tree := released.tree
  reason := released.reason
  uid := released.uid
  buffer := released.buffer

include tolerates in
theorem releaseKvCache_releases (mem : Memory τ)
    (slot : req.reqPoolIdx.isSome = true → req.mambaPoolIdx.isSome = true)
    (bufferless : req.reqPoolIdx = none → req.mambaPingPongTrackBuffer = none)
    (isInsert mambaExist : Bool) :
    Ends P (fun out => Releases cache mem req out.1 out.2 ∧ out.2.reqPoolIdx = none ∧
        (isInsert = false → out.2.mambaPoolIdx = none))
      (releaseKvCache cache mem req isInsert mambaExist) := by
  unfold releaseKvCache
  split
  · next noRow =>
    -- without a row there is no buffer
    have nothing : req.trackBufferToFree none = [] := by
      simp [Req.trackBufferToFree, bufferless noRow]
    split
    · exact tolerates.onlyMambaRadixCache
    split
    · next unnamed =>
      refine ⟨⟨?_, fun _ => id, rfl, rfl, rfl, rfl, rfl, rfl⟩, noRow, fun _ => unnamed⟩
      simp [Req.named, unnamed, nothing]
    · next own named =>
      have freed : Releases cache mem req
          ((mem.freeSlot own).freeSlots (req.trackBufferToFree none))
          { req with mambaPoolIdx := none } :=
        releases_freed named (.nil mem) (fun _ => id) (.refl _) rfl rfl rfl rfl
      rw [nothing] at freed
      simp only [Memory.freeSlots, MambaPool.free, append_nil] at freed
      exact ⟨freed, noRow, fun _ => rfl⟩
  next row held =>
  have slot := slot (by simp [held])
  obtain ⟨own, named⟩ := Option.isSome_iff_exists.mp slot
  by_cases supported : cache.supportsMamba = true
  · refine (cacheFinishedReq_releases mem slot isInsert mambaExist supported).bind ?_
    rintro ⟨cached, req'⟩ - ⟨released, sameRow, gone⟩
    simp only [freeUnmanaged, supported, if_true]
    exact ⟨released.freeRow (sameRow.trans held), rfl, gone⟩
  -- a cache without support leaves the slot to `free_mamba_cache`
  have untouched : cacheFinishedReq cache mem req isInsert mambaExist = .ok (mem, req) := by
    simp [cacheFinishedReq, supported]
  have freedSlot : freeUnmanaged cache mem req =
      .ok ((mem.freeSlot own).freeSlots (req.trackBufferToFree none),
        { req with mambaPoolIdx := none }) := by
    simp [freeUnmanaged, supported, freeMambaCache, named]
  rw [untouched]
  change Ends P _ (freeUnmanaged cache mem req >>= _)
  rw [freedSlot]
  have freed : Releases cache mem req ((mem.freeSlot own).freeSlots (req.trackBufferToFree none))
      { req with mambaPoolIdx := none } :=
    releases_freed named (.nil mem) (fun _ => id) (.refl _) rfl rfl rfl rfl
  exact ⟨freed.freeRow held, rfl, fun _ => rfl⟩

/-- A request gives its memory back, because it has finished or to go on without it. The
    release may see another reason to finish than the request had before. -/
theorem Releases.moves {released after : Req} (gives : Releases cache mem released mem' req')
    (unfinished : req.finishedReason = none) (sameNamed : released.named = req.named)
    (sameRow : released.reqPoolIdx = req.reqPoolIdx) (nothing : after.slots = [])
    (row : after.reqPoolIdx = req'.reqPoolIdx) (buffer : req.Fits cache → after.Fits cache) :
    Moves cache mem [req] mem' [after] := by
  refine moves_single ?_ gives.cache ?_ gives.size gives.tree buffer
  · intro slot
    rw [nothing, count_nil, gives.count slot, sameNamed, Req.slots_of_unfinished unfinished,
      Nat.add_zero]
  · have same := gives.rows
    simp only [rowsHeld, countP_cons, sameRow, row] at same ⊢
    exact same

/-- An operation that writes only slots of the free list and of the tree. -/
def Memory.Spares (mem mem' : Memory τ) : Prop :=
  ∀ slot, mem.count slot = 0 → mem'.pool.cache slot = mem.pool.cache slot

/-- A copy into a slot just taken, which then goes to the free list or to the tree. -/
theorem Memory.Takes.copied {taken : Memory τ} {donated own : Nat}
    (takes : mem.Takes [donated] taken)
    (back : mem'.Takes [donated] { taken with pool := taken.pool.copyFrom own donated })
    (keeps : cache.keepsMamba = true) (reqs : List Req) :
    Moves cache mem reqs mem' reqs ∧ mem.Spares mem' := by
  have spares : mem.Spares mem' := by
    intro slot unowned
    have different : slot ≠ donated := by
      rintro rfl
      have owned := takes.count slot
      rw [count_singleton_self] at owned
      omega
    have written := taken.pool.agreesOff_setSlot donated (taken.pool.cache own)
      (taken.pool.convCount own)
    exact (congrFun back.cache slot).symm.trans
      ((written.others slot different).trans (congrFun takes.cache slot))
  refine ⟨⟨⟨?_, ?_⟩, ?_, back.size.symm.trans takes.size, by simp [keeps], id⟩, spares⟩
  · intro slot
    have given := back.count slot
    have moved := takes.count slot
    simp only [holding, Memory.count, MambaPool.copyFrom, MambaPool.setSlot] at given moved ⊢
    omega
  · exact fun slot unowned => spares slot (Nat.eq_zero_of_add_eq_zero_right unowned)
  · rw [← back.rows, ← takes.rows]

theorem insertDonated_takes (mem : Memory τ) (req : Req) (donated : Nat) (existing : Option Nat) :
    (insertDonated mem req donated existing).1.Takes [donated] mem ∧
      ∃ lock, (insertDonated mem req donated existing).2 = { req with lockedSlot := lock } := by
  unfold insertDonated
  split
  · exact ⟨mem.freeSlot_takes donated, _, rfl⟩
  · exact ⟨mem.donate_takes donated, _, rfl⟩

/-- What the cache changes in a request that goes on, apart from the prefix. -/
structure Stashing where
  lock : Option Nat
  buffer : Option TrackBuffer
  nextTrackIdx : Nat
  trackSeqlen : Option Nat

def Req.stashed (change : Stashing) (req : Req) : Req :=
  { req with
    prefixLen := req.fillIds.length
    lockedSlot := change.lock
    mambaPingPongTrackBuffer := change.buffer
    mambaNextTrackIdx := change.nextTrackIdx
    mambaLastTrackSeqlen := change.trackSeqlen }

include tolerates in
theorem cacheUnfinishedReq_moves (locked : List Nat) (mem : Memory τ)
    (unfinished : req.finishedReason = none) (slot : req.mambaPoolIdx.isSome = true)
    (existing : Option Nat) (lru : List Nat) :
    Ends P (fun out => Moves cache mem [req] out.1 [out.2] ∧ mem.Spares out.1 ∧
        ∃ change, out.2 = req.stashed change)
      (cacheUnfinishedReq cache locked mem req existing lru) := by
  unfold cacheUnfinishedReq
  simp only
  split
  · exact ⟨moves_relabel mem rfl rfl rfl rfl, fun _ _ => rfl, ⟨_, _, _, _⟩, rfl⟩
  next keeps =>
  have keeps : cache.keepsMamba = true := by simpa using keeps
  split
  · split
    · next unnamed => simp [unnamed] at slot
    next own named =>
    -- without a buffer the tree gets a copy
    refine (Memory.allocMambaSlot_takes tolerates (mem.touch lru) locked).bind ?_
    rintro ⟨donated, taken⟩ - takes
    have takes := (mem.touch_rearranged lru).takes takes
    obtain ⟨back, lock, same⟩ := insertDonated_takes
      { taken with pool := taken.pool.copyFrom own donated }
      { req with prefixLen := req.fillIds.length } donated existing
    obtain ⟨moves, spares⟩ := takes.copied back keeps [req]
    refine ⟨?_, spares, ⟨lock, _, _, _⟩, same⟩
    rw [same]
    exact moves.trans (moves_relabel _ rfl rfl rfl rfl)
  next buffer held =>
  have held : req.mambaPingPongTrackBuffer = some buffer := held
  split
  · exact ⟨moves_relabel mem rfl rfl rfl rfl, fun _ _ => rfl, ⟨_, _, _, _⟩, rfl⟩
  refine (Memory.allocMambaSlot_takes tolerates (mem.touch lru) locked).bind ?_
  rintro ⟨fresh, taken⟩ - takes
  have takes := (mem.touch_rearranged lru).takes takes
  simp only
  generalize buffer.otherIdx req.mambaNextTrackIdx = idx
  obtain ⟨back, lock, same⟩ := insertDonated_takes taken
    { req with
      prefixLen := req.fillIds.length
      mambaPingPongTrackBuffer := some (buffer.set idx fresh)
      mambaLastTrackSeqlen := none } (buffer.get idx) existing
  have content := back.cache.symm.trans takes.cache
  refine ⟨?_, fun slot _ => congrFun content slot, ⟨lock, some (buffer.set idx fresh), _, none⟩,
    same⟩
  rw [same]
  -- the new slot stands where the donated one stood
  have before := buffer.slots_perm idx
  have after := buffer.set_slots_perm idx fresh
  refine moves_single ?_ content (by rw [back.rows.symm.trans takes.rows]; rfl)
    (back.size.symm.trans takes.size) (by simp [keeps]) ?_
  · intro other
    have given := back.count other
    have moved := takes.count other
    have old := before.count_eq other
    have new := after.count_eq other
    simp only [Req.slots, unfinished, Option.isNone_none, if_true, Req.named,
      Req.trackBufferToFree, held, count_append, count_cons, count_nil] at given moved old new ⊢
    omega
  · rintro fits _ ⟨⟩
    rw [← after.length_eq, length_cons, ← fits buffer held, ← before.length_eq, length_cons]

end Engram.Scheduler
