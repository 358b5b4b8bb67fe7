import Engram.Scheduler.Conservation

/-!
# Reachable states

The invariant of the scheduler holds after all its events (`run_reaches_invariant`): each Mamba
slot has exactly one owner, as long as no request is let go with its slot
(`mamba_slots_conserved`).
-/

namespace Engram.Scheduler

open Engram.Lib Engram.Lib.Transition Engram.Memory Engram.Restore Engram.Snapshot

variable {τ : Type} [Torch τ] {cfg : Config} {size rows : Nat} {s : State τ}

def Memory.TreeOf (cache : TreeCache) (mem : Memory τ) : Prop :=
  cache.keepsMamba = false → mem.tree = []

structure State.Invariant (cfg : Config) (size rows : Nat) (s : State τ) : Prop where
  sound : s.Sound
  conserved : s.Conserved
  treeOf : s.mem.TreeOf cfg.cache
  size_eq : s.mem.pool.size = size
  buffers : ∀ req ∈ s.accounted, req.Fits cfg.cache
  rows_eq : s.mem.freeRows.length + rowsHeld s.accounted = rows

theorem State.initial_invariant (cfg : Config) (size : Nat) (convSpecs : List TensorSpec)
    (temporalSpec : TensorSpec) (maxNumReqs : Nat) :
    (State.initial size convSpecs temporalSpec maxNumReqs : State τ).Invariant cfg size
      maxNumReqs where
  sound := ⟨by simp [initial], by simp [initial], by simp [initial]⟩
  conserved := by
    intro slot
    simp only [initial, accounted, requests, inFlight, MambaPool.init, Memory.count,
      List.nil_append, Option.toList_none, ownersAmong_nil, List.count_nil, Nat.add_zero]
    rw [(List.nodup_range' 1 Nat.one_pos).count]
    simp only [List.mem_range'_1]
    congr 1
    exact propext ⟨fun h => ⟨h.1, by omega⟩, fun h => ⟨h.1, by omega⟩⟩
  treeOf := fun _ => rfl
  size_eq := rfl
  buffers := by simp [initial, accounted, requests, inFlight]
  rows_eq := by simp [initial, accounted, requests, inFlight]

omit [Torch τ] in
theorem State.Invariant.step {s' : State τ} (inv : s.Invariant cfg size rows)
    (accounts : Accounts cfg s s') :
    s'.Invariant cfg size rows where
  sound := accounts.sound
  conserved := accounts.conserved inv.conserved
  treeOf := fun keepsNone => accounts.moves.tree keepsNone (inv.treeOf keepsNone)
  size_eq := accounts.moves.size.trans inv.size_eq
  buffers := accounts.moves.buffers inv.buffers
  rows_eq := accounts.moves.rows.trans inv.rows_eq

/-- Every event accounts for the slots and the rows. It stops the scheduler only with a
    tolerated fault, or because a prefill batch finds too few slots. -/
theorem step_accounts {P : Fault → Prop} (tolerates : Tolerates P) (cfg : Config) (model : Model τ)
    (event : Event τ) (sound : s.Sound) (conserved : s.Conserved)
    (short : ∀ plan begun mem canRun queue, event = .prefill plan →
      beginIteration cfg s plan.stash = .ok begun →
      admitLoop cfg.cache (getNumAllocatableReqs cfg begun) begun.locked begun.mem
          (startCanRun begun.chunkedReq plan.chunk) (calcPriority plan.order begun.waitingQueue)
          plan.offers = .ok (mem, canRun, queue) →
        (evictForBatch cfg.cache (lockedSlots (begun.runningBatch ++ canRun)) mem canRun.length
          plan.lru).pool.freeSlots.length < slotsWanted cfg.cache canRun → Short P) :
    Ends P (Accounts cfg s) (step cfg model s event) := by
  cases event with
  | advance seconds => exact ⟨.refl _ _, Nat.le_refl _, sound.waiting, sound.placed, sound.chunked⟩
  | restore source recv newRid =>
    exact (handleRestoreSnapshot_restored cfg s source recv newRid).accounts sound conserved
  | generate recv => exact handleGenerateRequest_accounts tolerates cfg sound recv
  | abort recv => exact abortRequest_accounts tolerates cfg sound recv
  | prefill plan =>
    exact prefill_accounts tolerates cfg model sound plan
      (fun begun mem canRun queue => short plan begun mem canRun queue rfl)
  | decode plan => exact decode_accounts tolerates cfg model sound plan

theorem step_invariant {model : Model τ} {s' : State τ} {event : Event τ}
    (inv : s.Invariant cfg size rows) (stepped : step cfg model s event = .ok s') :
    s'.Invariant cfg size rows :=
  inv.step ((step_accounts tolerates_all cfg model event inv.sound inv.conserved
    (fun _ _ _ _ _ _ _ _ _ => ⟨trivial, trivial⟩)).yields stepped)

theorem run_reaches_invariant (cfg : Config) (model : Model τ) (size : Nat)
    (convSpecs : List TensorSpec) (temporalSpec : TensorSpec) (maxNumReqs : Nat)
    (events : List (Event τ)) (s : State τ)
    (completed : run cfg model (.initial size convSpecs temporalSpec maxNumReqs) events = .ok s) :
    s.Invariant cfg size maxNumReqs :=
  run_preserves (fun _ _ _ inv stepped => step_invariant inv stepped) events _ s
    (State.initial_invariant cfg size convSpecs temporalSpec maxNumReqs) completed

/-! ### Slots -/

omit [Torch τ] in
theorem State.Invariant.one_owner (inv : s.Invariant cfg size rows)
    (released : ∀ req ∈ s.dropped, req.slots = []) {slot : Nat} (first : 1 ≤ slot)
    (last : slot ≤ size) :
    s.mem.pool.freeSlots.count slot + s.mem.tree.count slot +
      (ownedSlots s.requests).count slot = 1 := by
  have counted := inv.conserved slot
  rw [inv.size_eq, if_pos ⟨first, last⟩, State.accounted, ownersAmong_append,
    ownersAmong_eq_zero released, Nat.add_zero] at counted
  exact counted

/-- In every run from an empty scheduler the pool is never asked to take a missing state
    back, and each slot is in the free list, in a node of the tree, or with one unfinished
    request the scheduler holds, as its own slot or in its ping-pong buffer, provided that no
    request was let go with a slot. Without Mamba states in the tree only the free list and
    the requests remain. -/
theorem mamba_slots_conserved (cfg : Config) (model : Model τ) (size : Nat)
    (convSpecs : List TensorSpec) (temporalSpec : TensorSpec) (maxNumReqs : Nat)
    (events : List (Event τ)) :
    let result := run cfg model (.initial size convSpecs temporalSpec maxNumReqs) events
    result ≠ .error .doubleFree ∧
      ∀ s, result = .ok s → (∀ req ∈ s.dropped, req.slots = []) →
        (∀ slot, 1 ≤ slot → slot ≤ size →
          s.mem.pool.freeSlots.count slot + s.mem.tree.count slot +
            (ownedSlots s.requests).count slot = 1) ∧
        (cfg.cache.keepsMamba = false → s.mem.tree = []) := by
  intro result
  constructor
  · have tolerates : Tolerates (· ≠ .doubleFree) := by
      constructor <;> decide
    have always : Admissible (step cfg model) (fun _ _ => True)
        (.initial size convSpecs temporalSpec maxNumReqs) events :=
      admissible_of_forall (fun _ _ => trivial) _ _
    refine run_never_faults (fun _ _ _ inv _ stepped => step_invariant inv stepped) ?_ events _
      (State.initial_invariant cfg size convSpecs temporalSpec maxNumReqs) always
    intro s event inv _ faulted
    have ends := step_accounts tolerates cfg model event inv.sound inv.conserved
      (fun _ _ _ _ _ _ _ _ _ => ⟨by decide, by decide⟩)
    rw [faulted] at ends
    exact ends rfl
  · intro s completed released
    have inv := run_reaches_invariant cfg model size convSpecs temporalSpec maxNumReqs events s
      completed
    exact ⟨fun slot first last => inv.one_owner released first last, inv.treeOf⟩

/-- A hydrated request on a server with the extra buffer, from its prefill to its end. -/
theorem mamba_slots_conserved_hydrated_run :
    let spec : TensorSpec := ⟨.float32, [1]⟩
    let tensor : IntTensor := ⟨.float32, [1], [5]⟩
    let cfg : Config :=
      { cache := { kind := .mambaRadixCache, enableMambaExtraBuffer := true }
        ppMaxMicroBatchSize := 4 }
    let source := SnapshotSource.always
      { convStates := [tensor], temporalStates := tensor, fillIds := some [1, 2] }
    let events : List (Event IntTensor) :=
      [.restore source { rid := some "r" } "new", .generate { rid := "r", inputIds := [3, 4] },
        .prefill
          { offers := [{ verdict := .admitted none true }],
            outcomes := [{ trackSeqlen := some 2 }] },
        .decode { outcomes := [{ finish := some .length, trackSeqlen := some 3 }] }]
    ∃ s, run cfg Model.appending (.initial 5 [spec] spec 1) events = .ok s ∧
      s.mem.tree.length = 2 ∧ (∀ req ∈ s.dropped, req.slots = []) ∧
      ∀ slot, 1 ≤ slot → slot ≤ 5 →
        s.mem.pool.freeSlots.count slot + s.mem.tree.count slot +
          (ownedSlots s.requests).count slot = 1 := by
  intro spec tensor cfg source events
  have conserved := mamba_slots_conserved cfg Model.appending 5 [spec] spec 1 events
  obtain ⟨s, completed, donated, released⟩ :
      ∃ s, run cfg Model.appending (.initial 5 [spec] spec 1) events = .ok s ∧
        s.mem.tree.length = 2 ∧ ∀ req ∈ s.dropped, req.slots = [] := by decide +kernel
  exact ⟨s, completed, donated, released, (conserved.2 s completed released).1⟩

/-- Slot 1 is neither free nor named by a request: after a finish the tree has it, and
    after a restored request was rejected at a full queue nothing has it. With the extra
    buffer slot 2 is with a running request, but not as its `mamba_pool_idx`. -/
theorem mamba_slot_neither_free_nor_held :
    let spec : TensorSpec := ⟨.float32, [1]⟩
    let tensor : IntTensor := ⟨.float32, [1], [5]⟩
    let source := SnapshotSource.always
      { convStates := [tensor], temporalStates := tensor, fillIds := some [1, 2] }
    let radix : Config := { cache := { kind := .mambaRadixCache }, ppMaxMicroBatchSize := 4 }
    let admitted : Offer := { verdict := .admitted none true }
    let start (outcome : Outcome) : List (Event IntTensor) :=
      [.generate { rid := "r", inputIds := [3] },
        .prefill { offers := [admitted], outcomes := [outcome] }, .decode {}]
    let chunk : Config :=
      { cache := { kind := .chunkCache }, ppMaxMicroBatchSize := 4, maxQueuedRequests := some 1 }
    let reject : List (Event IntTensor) :=
      [.generate { rid := "r", inputIds := [3] },
        .restore source
          { rid := some "old", createNewRequest := true, continuationIds := some [4] } "restored-1"]
    let extra : Config := { radix with cache.enableMambaExtraBuffer := true }
    let places (s : State IntTensor) (slot : Nat) : Nat :=
      s.mem.pool.freeSlots.count slot + s.requests.countP (·.mambaPoolIdx == some slot)
    (∃ s, run radix Model.appending (.initial 3 [spec] spec 1)
        (start { finish := some .length }) = .ok s ∧
      s.mem.tree = [1] ∧ s.dropped = [] ∧ places s 1 = 0) ∧
    (∃ s, run chunk Model.appending (.initial 3 [spec] spec 1) reject = .ok s ∧
      s.mem.tree = [] ∧ places s 1 = 0) ∧
    (∃ s, run extra Model.appending (.initial 5 [spec] spec 1) (start {}) = .ok s ∧
      2 ∉ s.mem.tree ∧ s.dropped = [] ∧ places s 2 = 0) := by
  decide +kernel

end Engram.Scheduler
