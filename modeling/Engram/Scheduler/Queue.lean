import Mathlib.Algebra.Group.Int.Defs
import Engram.Restore.Registry
import Engram.Scheduler.Memory

/-!
# The scheduler's state and its waiting queue

The fields of `Scheduler` that requests pass through, and the functions of
`managers/scheduler.py` that put a request into the waiting queue or throw one
out: `_set_or_validate_priority`, `_abort_on_queued_limit`,
`_add_request_to_queue` and `_abort_on_waiting_timeout`. Disaggregation, the
grammar queue, sessions and the host cache are not modelled.
-/

namespace Engram.Scheduler

open Engram.Lib Engram.Memory Engram.Restore Engram.Snapshot

structure Config where
  cache : TreeCache
  maxQueuedRequests : Option Nat := none
  enablePriorityScheduling : Bool := false
  scheduleLowPriorityValuesFirst : Bool := false
  abortOnPriorityWhenDisabled : Bool := false
  maxReqInputLen : Nat := 4096
  allowAutoTruncate : Bool := false
  ppMaxMicroBatchSize : Nat
  /-- `SGLANG_REQ_WAITING_TIMEOUT`, `0` when there is none -/
  reqWaitingTimeout : Nat := 0
  modelPath : String := ""

/-- An `AbortReq` sent to the tokenizer manager. -/
structure AbortNotice where
  rid : String
  message : Option String
deriving DecidableEq, Repr

structure State (τ : Type) where
  mem : Memory τ
  pending : PendingRestores τ
  waitingQueue : List Req
  /-- the prefill batch of the last iteration, not yet merged -/
  lastBatch : List Req
  runningBatch : List Req
  chunkedReq : Option Req
  clock : Nat
  nextUid : Nat
  outbox : List AbortNotice
  /-- history: the requests let go without a call of `release_kv_cache` -/
  dropped : List Req

namespace State

variable {τ : Type}

/-- A server that has just started, with `maxNumReqs` rows. -/
def initial [Torch τ] (size : Nat) (convSpecs : List TensorSpec) (temporalSpec : TensorSpec)
    (maxNumReqs : Nat) : State τ where
  mem :=
    { pool := .init size convSpecs temporalSpec
      freeRows := List.range' 1 maxNumReqs
      tree := [] }
  pending := .empty
  waitingQueue := []
  lastBatch := []
  runningBatch := []
  chunkedReq := none
  clock := 1
  nextUid := 0
  outbox := []
  dropped := []

def inFlight (s : State τ) : List Req :=
  s.lastBatch ++ s.runningBatch ++ s.chunkedReq.toList

/-- Every request the scheduler still holds. -/
def requests (s : State τ) : List Req :=
  s.waitingQueue ++ s.inFlight

def notify (s : State τ) (rid : String) (message : Option String) : State τ :=
  { s with outbox := s.outbox ++ [⟨rid, message⟩] }

end State

/-- `sys.maxsize` -/
def sysMaxsize : Int := 2 ^ 63 - 1

def setOrValidatePriority (cfg : Config) (req : Req) : Option Req :=
  if cfg.enablePriorityScheduling && req.priority.isNone then
    some { req with
      priority := some (if cfg.scheduleLowPriorityValuesFirst then sysMaxsize
        else -sysMaxsize - 1) }
  else if !cfg.enablePriorityScheduling && req.priority.isSome &&
      cfg.abortOnPriorityWhenDisabled then none
  else some req

/-- `direction * priority`: the smaller, the more urgent. Under priority scheduling
    every queued request has a priority. -/
def urgency (cfg : Config) (req : Req) : Int :=
  (if cfg.scheduleLowPriorityValuesFirst then 1 else -1) * req.priority.getD 0

def keyLess (cfg : Config) (a b : Req) : Bool :=
  urgency cfg a < urgency cfg b ||
    (urgency cfg a == urgency cfg b && a.waitQueueEntryTime < b.waitQueueEntryTime)

/-- `max` over the queue with that key, which returns the first of equal maxima:
    the least preferred request and the queue without it. -/
def popLeastPreferred (cfg : Config) : List Req → Option (Req × List Req)
  | [] => none
  | req :: rest =>
    match popLeastPreferred cfg rest with
    | none => some (req, [])
    | some (candidate, others) =>
      if keyLess cfg req candidate then some (candidate, req :: others)
      else some (req, rest)

variable {τ : Type}

/-- `_abort_on_queued_limit`: whether the incoming request is aborted. An evicted
    candidate leaves the queue; its slot is not released. -/
def abortOnQueuedLimit (cfg : Config) (s : State τ) (recv : Req) :
    Except Fault (Bool × State τ) :=
  if cfg.maxQueuedRequests.all (s.waitingQueue.length + 1 ≤ ·) then .ok (false, s)
  else if !cfg.enablePriorityScheduling then
    .ok (true, s.notify recv.rid (some "The request queue is full."))
  else
    match popLeastPreferred cfg s.waitingQueue with
    | none => .error .emptyWaitingQueue
    | some (candidate, others) =>
      if urgency cfg recv < urgency cfg candidate then
        -- the return value compares request ids, not requests
        .ok (candidate.rid == recv.rid,
          { s with waitingQueue := others, dropped := s.dropped ++ [candidate] }.notify
            candidate.rid (some "The request is aborted by a higher priority request."))
      else .ok (true, s.notify recv.rid (some "The request queue is full."))

def addRequestToQueue (cfg : Config) (s : State τ) (req : Req) : Except Fault (State τ) :=
  match setOrValidatePriority cfg req with
  | none =>
    .ok ({ s with dropped := s.dropped ++ [req] }.notify req.rid (some
      "Using priority is disabled for this server. Please send a new request without a priority."))
  | some req => do
    let (aborted, s) ← abortOnQueuedLimit cfg s req
    if aborted then .ok { s with dropped := s.dropped ++ [req] }
    else .ok { s with
      waitingQueue := s.waitingQueue ++ [{ req with waitQueueEntryTime := s.clock }] }

def timedOut (cfg : Config) (clock : Nat) (req : Req) : Bool :=
  cfg.reqWaitingTimeout != 0 && 0 < req.waitQueueEntryTime &&
    req.waitQueueEntryTime + cfg.reqWaitingTimeout < clock

def abortOnWaitingTimeout (cfg : Config) (s : State τ) : State τ :=
  let deleted := s.waitingQueue.filter (timedOut cfg s.clock)
  { s with
    waitingQueue := s.waitingQueue.filter (fun req => !timedOut cfg s.clock req)
    outbox := s.outbox ++
      deleted.map (fun req => ⟨req.rid, some "Request waiting timeout reached."⟩)
    dropped := s.dropped ++ deleted }

end Engram.Scheduler
