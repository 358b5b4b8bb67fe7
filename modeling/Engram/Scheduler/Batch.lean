import Engram.Lib.Transition
import Engram.Scheduler.Handlers
import Mathlib.Data.List.Sort

/-!
# One iteration of the scheduler loop

`get_next_batch_to_run`, `_get_new_batch_prefill_raw`, `alloc_req_slots`, `prepare_for_extend`,
the forward pass as far as it touches Mamba states, and the processing of the batch results,
without overlap. The decisions that depend on the KV pool or on the sampled tokens (what a lookup
finds, whether `PrefillAdder` admits a request, which requests finish or are retracted, when a
state is tracked) are part of the plan of an iteration. A tracked state itself is not written: the
model follows who owns the slots of the buffers, and of the contents those of the requests' own
slots.
-/

namespace Engram.Scheduler

open Engram.Lib Engram.Lib.Transition Engram.Memory Engram.Restore Engram.Snapshot

variable {τ : Type}

/-- The slots of the nodes that requests of a batch have locked; a finished request has
    given its lock back. -/
def lockedSlots (reqs : List Req) : List Nat :=
  (reqs.filter (!·.finished)).filterMap (·.lockedSlot)

/-- What the forward pass does to the state of one slot. -/
structure Model (τ : Type) where
  forward : SlotState τ → List Nat → SlotState τ
  conv_length : ∀ state tokens, (forward state tokens).conv.length = state.conv.length

def Model.appending : Model IntTensor where
  forward := fun state tokens =>
    let data := state.temporal.data ++ tokens.map Int.ofNat
    { state with temporal := { state.temporal with data } }
  conv_length := fun _ _ => rfl

/-! ### Admission -/

/-- The answer of `PrefillAdder` for one request: not added, or added with as many
    tokens of a longer prompt as fit, and whether the loop goes on. -/
inductive Verdict where
  | refused
  | admitted (chunk : Option Nat) (goOn : Bool)
deriving DecidableEq, Repr

structure Offer where
  hit : Match := {}
  verdict : Verdict
deriving DecidableEq, Repr

/-- An eviction that makes room for KV indices: it frees the slots of some nodes. -/
structure Eviction where
  lru : List Nat := []
  count : Nat := 0
deriving DecidableEq, Repr

def Memory.evictForKv (mem : Memory τ) (locked : List Nat) (eviction : Eviction) : Memory τ :=
  (mem.touch eviction.lru).evict locked eviction.count

/-- Cut the request to a chunk of its prompt, of at least one token. -/
def Req.truncate (req : Req) (chunk : Option Nat) : Req :=
  match chunk with
  | none => req
  | some len =>
    if req.prefixLen + max 1 len < req.fillIds.length then
      { req with
        fillIds := req.fillIds.take (req.prefixLen + max 1 len)
        inflightMiddleChunks := req.inflightMiddleChunks + 1 }
    else req

def Req.inChunk (req : Req) : Bool :=
  0 < req.inflightMiddleChunks

def Req.endChunk (req : Req) : Req :=
  { req with inflightMiddleChunks := req.inflightMiddleChunks - 1 }

def startCanRun (chunkedReq : Option Req) (chunk : Option Nat) : List Req :=
  (chunkedReq.map (fun req => req.resetFillIds.truncate chunk)).toList

/-- The lines after a refusal: a slot the request has goes back to the pool. -/
def revertMambaIdx (mem : Memory τ) (req : Req) : Memory τ × Req :=
  match req.mambaPoolIdx with
  | none => (mem, req)
  | some slot => (mem.freeSlot slot, { req with mambaPoolIdx := none })

def admitLoop (cache : TreeCache) (limit : Nat) (locked : List Nat) :
    Memory τ → List Req → List Req → List Offer →
      Except Fault (Memory τ × List Req × List Req)
  | mem, canRun, [], _ => .ok (mem, canRun, [])
  | mem, canRun, queue, [] => .ok (mem, canRun, queue)
  | mem, canRun, req :: queue, offer :: offers =>
    if limit ≤ canRun.length then .ok (mem, canRun, req :: queue)
    else do
      let node := offer.hit.node cache mem
      let (mem, req) ←
        initNextRoundInput cache (locked ++ lockedSlots canRun) mem req offer.hit
      match offer.verdict with
      | .refused =>
        let (mem, req) := revertMambaIdx mem req
        .ok (mem, canRun, req :: queue)
      | .admitted chunk goOn =>
        let req := { req with lockedSlot := node }.truncate chunk
        if goOn then admitLoop cache limit locked mem (canRun ++ [req]) queue offers
        else .ok (mem, canRun ++ [req], queue)

/-- What holds of the memory, the two lists and the offers left, and is kept when a request
    is refused and when one is admitted, holds at the end of the loop. -/
theorem admitLoop_induction {P : Fault → Prop} {cache : TreeCache} {limit : Nat}
    {locked : List Nat} {motive : Memory τ → List Req → List Req → List Offer → Prop}
    (looks : ∀ {mem canRun req queue offer offers},
      motive mem canRun (req :: queue) (offer :: offers) →
        Ends P (fun out =>
            (offer.verdict = .refused → motive (revertMambaIdx out.1 out.2).1 canRun
              ((revertMambaIdx out.1 out.2).2 :: queue) []) ∧
            (canRun.length < limit → ∀ chunk, motive out.1
              (canRun ++ [{ out.2 with lockedSlot := offer.hit.node cache mem }.truncate chunk])
              queue offers))
          (initNextRoundInput cache (locked ++ lockedSlots canRun) mem req offer.hit))
    {mem : Memory τ} {canRun queue : List Req} {offers : List Offer}
    (start : motive mem canRun queue offers) :
    Ends P (fun out => ∃ offers', motive out.1 out.2.1 out.2.2 offers')
      (admitLoop cache limit locked mem canRun queue offers) := by
  induction queue generalizing mem canRun offers with
  | nil => cases offers <;> exact ⟨_, start⟩
  | cons req queue ih =>
    cases offers with
    | nil => exact ⟨_, start⟩
    | cons offer offers =>
      unfold admitLoop
      split
      · exact ⟨_, start⟩
      next below =>
      refine (looks start).bind ?_
      rintro ⟨matched, started⟩ - ⟨refused, admitted⟩
      simp only
      split
      · next refusal => exact ⟨_, refused refusal⟩
      · next chunk goOn _ =>
        have joined := admitted (Nat.lt_of_not_le below) chunk
        split
        · exact ih joined
        · exact ⟨_, joined⟩

theorem revertMambaIdx_slot (mem : Memory τ) (req : Req) :
    (revertMambaIdx mem req).2 = { req with mambaPoolIdx := none } := by
  unfold revertMambaIdx
  split
  · next none => rw [← none]
  · rfl

/-! ### Allocation -/

def assignRows : List Nat → List Req → Option (List Nat × List Req)
  | rows, [] => some (rows, [])
  | rows, req :: reqs =>
    if req.reqPoolIdx.isSome then
      (assignRows rows reqs).map (fun (rows, reqs) => (rows, req :: reqs))
    else
      match rows with
      | [] => none
      | row :: rows =>
        (assignRows rows reqs).map
          (fun (rows, reqs) => (rows, { req with reqPoolIdx := some row } :: reqs))

def assignSlot (mem : Memory τ) (req : Req) : Except Fault (Memory τ × Req) :=
  if req.mambaPoolIdx.isSome then .ok (mem, req)
  else
    match mem.allocSlot with
    | none => .error .notEnoughMambaSpace
    | some (slot, mem) =>
      .ok (mem, { req with mambaPoolIdx := some slot, mambaNeedsClear := true })

def Memory.allocTrackBuffer (mem : Memory τ) (cache : TreeCache) :
    Option (TrackBuffer × Memory τ) := do
  let (first, mem) ← mem.allocSlot
  if cache.enableOverlapSchedule then do
    let (second, mem) ← mem.allocSlot
    some (⟨first, some second⟩, mem)
  else some (⟨first, none⟩, mem)

def assignTrackBuffer (cache : TreeCache) (mem : Memory τ) (req : Req) :
    Except Fault (Memory τ × Req) :=
  if cache.enableMambaExtraBuffer && req.mambaPingPongTrackBuffer.isNone then
    match mem.allocTrackBuffer cache with
    | none => .error .notEnoughTrackSpace
    | some (buffer, mem) =>
      .ok (mem, { req with mambaPingPongTrackBuffer := some buffer, mambaNextTrackIdx := 0 })
  else .ok (mem, req)

/-- The loop of `HybridReqToTokenPool.alloc`. -/
def assignSlots (cache : TreeCache) (mem : Memory τ) :
    List Req → Except Fault (Memory τ × List Req)
  | [] => .ok (mem, [])
  | req :: reqs => do
    let (mem, req) ← assignSlot mem req
    let (mem, req) ← assignTrackBuffer cache mem req
    let (mem, reqs) ← assignSlots cache mem reqs
    .ok (mem, req :: reqs)

def mambaStatePerReq (cache : TreeCache) : Nat :=
  if cache.supportsMamba then 3 else 1

def evictForBatch (cache : TreeCache) (locked : List Nat) (mem : Memory τ) (numReqs : Nat)
    (lru : List Nat) : Memory τ :=
  let needed := numReqs * mambaStatePerReq cache
  if mem.pool.availableSize < needed && cache.supportsMamba then
    (mem.touch lru).evict locked (needed - mem.pool.availableSize)
  else mem

def allocReqSlots (cache : TreeCache) (locked : List Nat) (mem : Memory τ) (reqs : List Req)
    (lru : List Nat) : Except Fault (Memory τ × List Req) :=
  let mem := evictForBatch cache locked mem reqs.length lru
  match assignRows mem.freeRows reqs with
  | none => .error .outOfRequestRows
  | some (freeRows, reqs) => assignSlots cache { mem with freeRows } reqs

/-! ### The forward pass -/

/-- The copies of `_collect_deferred_mamba_cow_and_clear`. -/
def cowPairs (reqs : List Req) : List (Nat × Nat) :=
  reqs.filterMap (fun req =>
    match req.mambaCowSrcIndex, req.mambaPoolIdx with
    | some src, some dst => some (src, dst)
    | _, _ => none)

def clearSlots (reqs : List Req) : List Nat :=
  reqs.filterMap (fun req =>
    if req.mambaCowSrcIndex.isNone && req.mambaNeedsClear then req.mambaPoolIdx else none)

def runDeferred [Torch τ] (pool : MambaPool τ) (reqs : List Req) : MambaPool τ :=
  ((clearSlots reqs).foldl MambaPool.clearSlot pool).copySlots (cowPairs reqs)

def Req.clearDeferred (req : Req) : Req :=
  { req with mambaCowSrcIndex := none, mambaNeedsClear := false }

/-- The state a prefill starts from: the slot's own, when there is a prefix or a
    restored state (`has_initial_states`), else zero. -/
def initialState [Torch τ] (pool : MambaPool τ) (req : Req) (slot : Nat) : SlotState τ :=
  if 0 < req.prefixLen || req.mambaHasRestoredState then pool.cache slot
  else
    { conv := pool.convSpecs.map (fun spec => Torch.zeros spec.dtype spec.shape)
      temporal := Torch.zeros pool.temporalSpec.dtype pool.temporalSpec.shape }

theorem initialState_conv_length [Torch τ] (pool : MambaPool τ) (req : Req) (slot : Nat) :
    (initialState pool req slot).conv.length = pool.convSpecs.length := by
  unfold initialState
  split
  · exact pool.convCount slot
  · exact List.length_map ..

def forwardExtend [Torch τ] (model : Model τ) (pool : MambaPool τ) (req : Req) : MambaPool τ :=
  match req.mambaPoolIdx with
  | none => pool
  | some slot =>
    pool.setSlot slot
      (model.forward (initialState pool req slot) (req.fillIds.drop req.prefixLen))
      ((model.conv_length ..).trans (initialState_conv_length ..))

def Memory.forwardExtend [Torch τ] (mem : Memory τ) (model : Model τ) (batch : List Req) :
    Memory τ :=
  { mem with pool := batch.foldl (Scheduler.forwardExtend model) mem.pool }

def forwardDecode (model : Model τ) (pool : MambaPool τ) (req : Req) : MambaPool τ :=
  match req.mambaPoolIdx with
  | none => pool
  | some slot =>
    pool.setSlot slot
      (model.forward (pool.cache slot) (req.originInputIds ++ req.outputIds).getLast?.toList)
      ((model.conv_length ..).trans (pool.convCount slot))

def Memory.forwardDecode (mem : Memory τ) (model : Model τ) (batch : List Req) : Memory τ :=
  { mem with pool := batch.foldl (Scheduler.forwardDecode model) mem.pool }

/-! ### Results -/

/-- The sampled token of a request, the reason and the length it finishes with, if it does,
    the length at which a state was tracked, if one was, and what the tree finds when the
    request is cached. -/
structure Outcome where
  token : Nat := 0
  trackSeqlen : Option Nat := none
  finish : Option FinishReason := none
  finishedLen : Option Nat := none
  mambaExist : Bool := false
  existing : Option Nat := none
  lru : List Nat := []
deriving DecidableEq, Repr

def Req.updateFinishState (req : Req) (outcome : Outcome) : Req :=
  if req.finished then req
  else
    match req.toFinish with
    | some reason => { req with finishedReason := some reason, toFinish := none }
    | none =>
      match outcome.finish with
      | some reason =>
        { req with finishedReason := some reason, finishedLen := outcome.finishedLen }
      | none => req

def Req.accept (req : Req) (outcome : Outcome) : Req :=
  { req with outputIds := req.outputIds ++ [outcome.token] }.updateFinishState outcome

/-- A result adds a token and sets the finish state, nothing else. -/
theorem Req.accept_eq (req : Req) (outcome : Outcome) :
    ∃ finishedReason finishedLen toFinish, req.accept outcome = { req with
      outputIds := req.outputIds ++ [outcome.token], finishedReason, finishedLen, toFinish } := by
  unfold Req.accept Req.updateFinishState
  split
  · exact ⟨_, _, _, rfl⟩
  split
  · exact ⟨_, _, _, rfl⟩
  split
  · exact ⟨_, _, _, rfl⟩
  · exact ⟨_, _, _, rfl⟩

/-- `_mamba_prefix_cache_update`. Whether a state is due is an argument. -/
def Req.track (req : Req) (trackSeqlen : Option Nat) : Req :=
  match req.mambaPingPongTrackBuffer, trackSeqlen with
  | some buffer, some seqlen =>
    { req with
      mambaNextTrackIdx := buffer.otherIdx req.mambaNextTrackIdx
      mambaLastTrackSeqlen := some seqlen }
  | _, _ => req

/-- `process_batch_result_prefill` for one request whose prompt is complete. -/
def processPrefill (cache : TreeCache) (locked : List Nat) (mem : Memory τ) (req : Req)
    (outcome : Outcome) : Except Fault (Memory τ × Req) :=
  let req := (req.track outcome.trackSeqlen).accept outcome
  if req.finished then releaseKvCache cache mem req true outcome.mambaExist
  else cacheUnfinishedReq cache locked mem req outcome.existing outcome.lru

def processDecode (cache : TreeCache) (_locked : List Nat) (mem : Memory τ) (req : Req)
    (outcome : Outcome) : Except Fault (Memory τ × Req) :=
  let req := (req.track outcome.trackSeqlen).accept outcome
  if req.finished then releaseKvCache cache mem req true outcome.mambaExist
  else .ok (mem, req)

/-- Process the results of a batch in order. Each request sees the locks of the
    others as they are at that moment; a missing outcome is an ordinary token. -/
def processEach
    (process : List Nat → Memory τ → Req → Outcome → Except Fault (Memory τ × Req))
    (locked : List Nat) :
    Memory τ → List Req → List Req → List Outcome → Except Fault (Memory τ × List Req)
  | mem, processed, [], _ => .ok (mem, processed)
  | mem, processed, req :: reqs, outcomes => do
    let (mem, req) ← process (locked ++ lockedSlots (processed ++ req :: reqs)) mem req
      (outcomes.headD {})
    processEach process locked mem (processed ++ [req]) reqs outcomes.tail

/-- What holds of the memory, the processed and the remaining requests, and is kept when one
    result is processed, holds at the end of the loop. -/
theorem processEach_induction {P : Fault → Prop}
    {process : List Nat → Memory τ → Req → Outcome → Except Fault (Memory τ × Req)}
    {motive : Memory τ → List Req → List Req → Prop}
    (each : ∀ {mem processed req reqs} locked outcome, motive mem processed (req :: reqs) →
      Ends P (fun out => motive out.1 (processed ++ [out.2]) reqs) (process locked mem req outcome))
    (locked : List Nat) {mem : Memory τ} {processed reqs : List Req} (outcomes : List Outcome)
    (start : motive mem processed reqs) :
    Ends P (fun out => motive out.1 out.2 [])
      (processEach process locked mem processed reqs outcomes) := by
  induction reqs generalizing mem processed outcomes with
  | nil => exact start
  | cons req reqs ih => exact (each _ _ start).bind fun _ _ kept => ih outcomes.tail kept

end Engram.Scheduler
