import Engram.Scheduler.Reachable

/-!
# Aborting queued requests

`abort_request` releases the slot of a waiting request through `release_kv_cache`, which expects
that only a cache with Mamba support gives a slot to a request without a row. Restores do so under
every cache, so an abort is safe only with support or without slots (`abort_queued_safe_iff`).
-/

namespace Engram.Scheduler

open Engram.Lib Engram.Lib.Transition Engram.Memory Engram.Restore Engram.Snapshot List

variable {τ : Type}

/-- The abort raises no assertion, and the slots of the waiting requests it hits are
    free afterwards. -/
def SafelyAborted (cfg : Config) (s : State τ) (recv : AbortReq) : Prop :=
  ∃ s', abortRequest cfg s recv = .ok s' ∧
    ∀ req ∈ s.waitingQueue, recv.hits req = true → ∀ slot, req.mambaPoolIdx = some slot →
      slot ∈ s'.mem.pool.freeSlots

section Queue

variable {cfg : Config} {recv : AbortReq} {mem : Memory τ}

theorem abortQueued_supported (supported : cfg.cache.supportsMamba = true) {queue : List Req}
    (queued : ∀ req ∈ queue, req.Queued) :
    ∃ mem' kept, abortQueued cfg recv mem queue = .ok (mem', kept) ∧
      ∀ req ∈ queue, recv.hits req = true → ∀ slot, req.mambaPoolIdx = some slot →
        slot ∈ mem'.pool.freeSlots := by
  induction queue with
  | nil => exact ⟨mem, [], rfl, by simp⟩
  | cons req queue ih =>
    obtain ⟨later, kept, tail, freed⟩ :=
      ih (fun other member => queued other (mem_cons_of_mem req member))
    have row := (queued req mem_cons_self).2
    rw [abortQueued, tail]
    by_cases hit : recv.hits req = true
    · cases named : req.mambaPoolIdx with
      | none =>
        refine ⟨later, kept, by simp [bind, Except.bind, hit], ?_⟩
        intro other member hit' slot named'
        rcases mem_cons.mp member with rfl | member
        · rw [named] at named'
          cases named'
        · exact freed other member hit' slot named'
      | some own =>
        -- the slot joins the free list, where the earlier ones already are
        refine ⟨later.freeSlot own, kept,
          by simp [bind, Except.bind, hit, named, releaseKvCache, row, supported], ?_⟩
        intro other member hit' slot named'
        simp only [Memory.freeSlot, Memory.freeSlots, MambaPool.free, mem_append, mem_singleton]
        rcases mem_cons.mp member with rfl | member
        · rw [named] at named'
          exact .inr (Option.some.inj named').symm
        · exact .inl (freed other member hit' slot named')
    · refine ⟨later, req :: kept, by simp [bind, Except.bind, hit], ?_⟩
      intro other member hit' slot named'
      rcases mem_cons.mp member with rfl | member
      · exact absurd hit' hit
      · exact freed other member hit' slot named'

/-- Without Mamba support the loop goes through only if it meets no slot. -/
theorem abortQueued_unsupported (unsupported : cfg.cache.supportsMamba = false) {queue : List Req}
    (queued : ∀ req ∈ queue, req.Queued) :
    (∃ out, abortQueued cfg recv mem queue = .ok out) ↔
      ∀ req ∈ queue, recv.hits req = true → req.mambaPoolIdx = none := by
  induction queue with
  | nil => simp [abortQueued]
  | cons req queue ih =>
    have tail := ih (fun other member => queued other (mem_cons_of_mem req member))
    have row := (queued req mem_cons_self).2
    rw [forall_mem_cons, ← tail, abortQueued]
    cases abortQueued cfg recv mem queue with
    | error fault => simp [bind, Except.bind]
    | ok out =>
      by_cases hit : recv.hits req = true
      · cases named : req.mambaPoolIdx with
        | none => simp [bind, Except.bind, hit]
        | some own =>
          simp [bind, Except.bind, hit, releaseKvCache, row, unsupported]
      · simp [bind, Except.bind, hit]

end Queue

/-- In a reachable state an abort is safe exactly when the cache supports Mamba states
    or no waiting request that it hits has a slot. -/
theorem State.Invariant.safelyAborted_iff {cfg : Config} {size rows : Nat} {s : State τ}
    (inv : s.Invariant cfg size rows) (recv : AbortReq) :
    SafelyAborted cfg s recv ↔
      cfg.cache.supportsMamba = true ∨
        ∀ req ∈ s.waitingQueue, recv.hits req = true → req.mambaPoolIdx = none := by
  have queued := inv.sound.waiting
  unfold SafelyAborted abortRequest
  constructor
  · rintro ⟨s', completed, -⟩
    obtain ⟨out, aborted, -⟩ := bind_ok completed
    by_cases supported : cfg.cache.supportsMamba = true
    · exact .inl supported
    · exact .inr ((abortQueued_unsupported (by simpa using supported) queued).mp ⟨out, aborted⟩)
  intro condition
  by_cases supported : cfg.cache.supportsMamba = true
  · obtain ⟨mem', kept, aborted, freed⟩ := abortQueued_supported supported queued
    rw [aborted]
    exact ⟨_, rfl, freed⟩
  have none := condition.resolve_left supported
  obtain ⟨⟨mem', kept⟩, aborted⟩ :=
    (abortQueued_unsupported (by simpa using supported) queued).mpr none
  rw [aborted]
  refine ⟨_, rfl, ?_⟩
  intro req member hit slot named
  rw [none req member hit] at named
  cases named

/-- For a Mamba model, in every reachable state and for every `AbortReq`: the abort is
    safe exactly when the factory has built a cache with Mamba support, or the waiting
    requests it hits have no slots. -/
theorem abort_queued_safe_iff [Torch τ] (ctx : TreeCacheBuildContext)
    (mamba : ctx.isHybridSsm = true) (cfg : Config) (built : cfg.cache = .build ctx)
    (model : Model τ) (size : Nat) (convSpecs : List TensorSpec) (temporalSpec : TensorSpec)
    (maxNumReqs : Nat) (events : List (Event τ)) (s : State τ)
    (reached : run cfg model (.initial size convSpecs temporalSpec maxNumReqs) events = .ok s)
    (recv : AbortReq) :
    SafelyAborted cfg s recv ↔
      (¬ (ctx.effectiveChunkedPrefillSize.isSome = true ∧ ctx.disableRadixCache = true) ∧
        ctx.experimentalCppRadixTree = false ∧
        (ctx.isHybridSwa = true →
          ctx.enableUnifiedRadixTree = false ∧ ctx.enableHierarchicalCache = true)) ∨
      ∀ req ∈ s.waitingQueue, recv.hits req = true → req.mambaPoolIdx = none := by
  have inv := run_reaches_invariant cfg model size convSpecs temporalSpec maxNumReqs events s
    reached
  rw [inv.safelyAborted_iff recv, built, TreeCache.build_supportsMamba_iff ctx mamba]

theorem abort_queued_safe_with_radix_cache :
    let spec : TensorSpec := ⟨.float32, [1]⟩
    let tensor : IntTensor := ⟨.float32, [1], [5]⟩
    let ctx : TreeCacheBuildContext :=
      { isHybridSsm := true, effectiveChunkedPrefillSize := some 8192 }
    let cfg : Config := { cache := .build ctx, ppMaxMicroBatchSize := 4 }
    let source := SnapshotSource.always
      { convStates := [tensor], temporalStates := tensor, fillIds := some [1, 2] }
    let events : List (Event IntTensor) :=
      [.restore source { rid := some "r" } "new", .generate { rid := "r", inputIds := [3, 4] }]
    ∃ s, run cfg Model.appending (.initial 3 [spec] spec 1) events = .ok s ∧
      s.waitingQueue.map (·.mambaPoolIdx) = [some 1] ∧ SafelyAborted cfg s { rid := "r" } := by
  intro spec tensor ctx cfg source events
  obtain ⟨s, reached, holdsSlot⟩ :
      ∃ s, run cfg Model.appending (.initial 3 [spec] spec 1) events = .ok s ∧
        s.waitingQueue.map (·.mambaPoolIdx) = [some 1] := by decide
  refine ⟨s, reached, holdsSlot, ?_⟩
  exact (abort_queued_safe_iff ctx rfl cfg rfl Model.appending 3 [spec] spec 1 events s reached
    { rid := "r" }).mpr (.inl (by decide))

/-- With `--disable-radix-cache` the abort of a hydrated request fails an assertion. -/
theorem abort_queued_fails_with_chunk_cache :
    let spec : TensorSpec := ⟨.float32, [1]⟩
    let tensor : IntTensor := ⟨.float32, [1], [5]⟩
    let ctx : TreeCacheBuildContext :=
      { isHybridSsm := true, effectiveChunkedPrefillSize := some 8192, disableRadixCache := true }
    let cfg : Config := { cache := .build ctx, ppMaxMicroBatchSize := 4 }
    let source := SnapshotSource.always
      { convStates := [tensor], temporalStates := tensor, fillIds := some [1, 2] }
    let events : List (Event IntTensor) :=
      [.restore source { rid := some "r" } "new", .generate { rid := "r", inputIds := [3, 4] }]
    ∃ s, run cfg Model.appending (.initial 3 [spec] spec 1) events = .ok s ∧
      abortRequest cfg s { rid := "r" } matches .error .onlyMambaRadixCache := by
  intro spec tensor ctx cfg source events
  decide

end Engram.Scheduler
