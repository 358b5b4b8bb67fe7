import Engram.Scheduler.Batch

/-!
# The scheduler as a transition system

The two kinds of iteration of the scheduler loop, and the step function over all
events: requests that arrive between iterations, and the iterations themselves.
-/

namespace Engram.Scheduler

open Engram.Lib Engram.Memory Engram.Restore Engram.Snapshot

variable {τ : Type}

def State.locked (s : State τ) : List Nat :=
  lockedSlots s.inFlight

/-! ### The start of an iteration -/

/-- The length at which the chunked request had a state tracked, if it had, and what the
    tree finds when it is stashed. -/
structure Stash where
  trackSeqlen : Option Nat := none
  existing : Option Nat := none
  lru : List Nat := []
deriving DecidableEq, Repr

def stashChunkedRequest (cfg : Config) (s : State τ) (stash : Stash) : Except Fault (State τ) :=
  match s.chunkedReq with
  | none => .ok s
  | some req => do
    let (mem, req) ← cacheUnfinishedReq cfg.cache s.locked s.mem (req.track stash.trackSeqlen)
      stash.existing stash.lru
    .ok { s with mem, chunkedReq := some req }

def mergeLastBatch (s : State τ) : State τ :=
  { s with
    runningBatch := s.runningBatch ++ s.lastBatch.filter (!·.finished)
    lastBatch := [] }

/-- The part of `get_next_batch_to_run` before a new batch is formed. -/
def beginIteration (cfg : Config) (s : State τ) (stash : Stash) : Except Fault (State τ) := do
  let s ← stashChunkedRequest cfg (abortOnWaitingTimeout cfg s) stash
  .ok (mergeLastBatch s)

/-! ### Prefill -/

structure PrefillPlan where
  stash : Stash := {}
  /-- the order `calc_priority` gives the waiting requests, by identity -/
  order : List Nat := []
  chunk : Option Nat := none
  offers : List Offer := []
  lru : List Nat := []
  kvEviction : Eviction := {}
  outcomes : List Outcome := []

def calcPriority (order : List Nat) (queue : List Req) : List Req :=
  queue.insertionSort (fun a b => order.idxOf a.uid ≤ order.idxOf b.uid)

def getNumAllocatableReqs (cfg : Config) (s : State τ) : Nat :=
  min (cfg.ppMaxMicroBatchSize - s.runningBatch.length) s.mem.freeRows.length

def prepareForExtend [Torch τ] (cfg : Config) (running : List Req) (mem : Memory τ)
    (canRun : List Req) (plan : PrefillPlan) : Except Fault (Memory τ × List Req) := do
  let locked := lockedSlots (running ++ canRun)
  let (mem, batch) ← allocReqSlots cfg.cache locked mem canRun plan.lru
  let mem := mem.evictForKv locked plan.kvEviction
  .ok ({ mem with pool := runDeferred mem.pool batch }, batch.map Req.clearDeferred)

/-- `_get_new_batch_prefill_raw` with `prepare_for_extend`: the new batch, empty when
    no request can run. -/
def getNewBatchPrefill [Torch τ] (cfg : Config) (s : State τ) (plan : PrefillPlan) :
    Except Fault (State τ × List Req) :=
  if s.chunkedReq.isNone && getNumAllocatableReqs cfg s = 0 then .ok (s, [])
  else do
    let (mem, canRun, waitingQueue) ←
      admitLoop cfg.cache (getNumAllocatableReqs cfg s) s.locked s.mem
        (startCanRun s.chunkedReq plan.chunk) (calcPriority plan.order s.waitingQueue)
        plan.offers
    if canRun.isEmpty then .ok ({ s with mem, waitingQueue }, [])
    else if 1 < canRun.countP Req.inChunk then .error .chunkedReqPresent
    else do
      let (mem, batch) ← prepareForExtend cfg s.runningBatch mem canRun plan
      .ok ({ s with mem, waitingQueue, chunkedReq := none }, batch)

def middleChunks (batch : List Req) : List Req :=
  (batch.filter Req.inChunk).map Req.endChunk

def runPrefill [Torch τ] (cfg : Config) (model : Model τ) (s : State τ) (batch : List Req)
    (outcomes : List Outcome) : Except Fault (State τ) := do
  let (mem, lastBatch) ← processEach (processPrefill cfg.cache)
    (lockedSlots (s.runningBatch ++ middleChunks batch)) (s.mem.forwardExtend model batch) []
    (batch.filter (!·.inChunk)) outcomes
  .ok { s with mem, lastBatch, chunkedReq := (middleChunks batch).head? }

def prefill [Torch τ] (cfg : Config) (model : Model τ) (s : State τ) (plan : PrefillPlan) :
    Except Fault (State τ) := do
  let s ← beginIteration cfg s plan.stash
  let (s, batch) ← getNewBatchPrefill cfg s plan
  if batch.isEmpty then .ok s else runPrefill cfg model s batch plan.outcomes

/-! ### Decode -/

structure DecodePlan where
  stash : Stash := {}
  kvEviction : Eviction := {}
  /-- how many requests are retracted, and whether the last one left is aborted for
      want of memory; `none` when the memory is enough -/
  retract : Option (Nat × Bool) := none
  outcomes : List Outcome := []

/-- The order in which `retract_decode` keeps requests. -/
def retractOrder (reqs : List Req) : List Req :=
  reqs.insertionSort (fun a b =>
    b.outputIds.length < a.outputIds.length ∨
      (b.outputIds.length = a.outputIds.length ∧
        a.originInputIds.length ≤ b.originInputIds.length))

/-- `release_req` for each request. -/
def releaseReqs (cache : TreeCache) : Memory τ → List Req → Except Fault (Memory τ × List Req)
  | mem, [] => .ok (mem, [])
  | mem, req :: reqs => do
    let (mem, req) ← releaseKvCache cache mem req false true
    let (mem, reqs) ← releaseReqs cache mem reqs
    .ok (mem, req.resetForRetract :: reqs)

def requeue (cfg : Config) : State τ → List Req → Except Fault (State τ)
  | s, [] => .ok s
  | s, req :: reqs => do
    let s ← addRequestToQueue cfg s req
    requeue cfg s reqs

/-- `retract_decode`: the requests that stay, those that are retracted, in the order
    of their release, and the one that is aborted. At least one request stays or is
    aborted. -/
def retractSplit (running : List Req) : Option (Nat × Bool) → List Req × List Req × List Req
  | none => (running, [], [])
  | some (count, abortLast) =>
    let sorted := retractOrder running
    let stay := sorted.take (max 1 (sorted.length - count))
    let retracted := (sorted.drop (max 1 (sorted.length - count))).reverse
    if abortLast && stay.length ≤ 1 then ([], retracted, stay) else (stay, retracted, [])

def updateRunningBatch (cfg : Config) (s : State τ) (plan : DecodePlan) :
    Except Fault (State τ) := do
  let (stay, retracted, aborted) := retractSplit (s.runningBatch.filter (!·.finished)) plan.retract
  let mem := s.mem.evictForKv s.locked plan.kvEviction
  let (mem, retracted) ← releaseReqs cfg.cache mem retracted
  let (mem, aborted) ← releaseReqs cfg.cache mem aborted
  let s := { s with
    mem
    runningBatch := stay
    outbox := s.outbox ++ aborted.map (fun req => ⟨req.rid, some
      "Out of memory even after retracting all other requests in the decode batch. Aborting the last request."⟩) }
  requeue cfg s retracted

/-- `run_batch` and `process_batch_result_decode`. -/
def runDecode (cfg : Config) (model : Model τ) (s : State τ) (outcomes : List Outcome) :
    Except Fault (State τ) := do
  let (mem, runningBatch) ← processEach (processDecode cfg.cache)
    (lockedSlots s.chunkedReq.toList) (s.mem.forwardDecode model s.runningBatch) []
    s.runningBatch outcomes
  .ok { s with mem, runningBatch }

/-- An iteration without a new prefill batch. -/
def decode (cfg : Config) (model : Model τ) (s : State τ) (plan : DecodePlan) :
    Except Fault (State τ) := do
  let s ← beginIteration cfg s plan.stash
  let s ← updateRunningBatch cfg s plan
  runDecode cfg model s plan.outcomes

/-! ### The step function -/

inductive Event (τ : Type) where
  | advance (seconds : Nat)
  | restore (source : SnapshotSource τ) (recv : RestoreReq) (newRid : String)
  | generate (recv : GenerateReq)
  | abort (recv : AbortReq)
  | prefill (plan : PrefillPlan)
  | decode (plan : DecodePlan)

def step [Torch τ] (cfg : Config) (model : Model τ) (s : State τ) :
    Event τ → Except Fault (State τ)
  | .advance seconds => .ok { s with clock := s.clock + seconds }
  | .restore source recv newRid => .ok (handleRestoreSnapshot cfg s source recv newRid).1
  | .generate recv => handleGenerateRequest cfg s recv
  | .abort recv => abortRequest cfg s recv
  | .prefill plan => prefill cfg model s plan
  | .decode plan => decode cfg model s plan

def run [Torch τ] (cfg : Config) (model : Model τ) (s : State τ) (events : List (Event τ)) :
    Except Fault (State τ) :=
  Transition.run (step cfg model) s events

end Engram.Scheduler
