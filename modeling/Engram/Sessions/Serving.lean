import Engram.Sessions.Controller
import Engram.Lib.Transition

/-!
# Sessions under the scheduler

`SessionController`, the session part of `StreamingSession` and what the scheduler does with the
requests of sessions: it creates, schedules, retracts and re-admits them, processes their results,
and drops them from the queue. Of a slot only its presence is kept, and of a request whether it
has a row. For every request the model remembers which session accepted it, and for the controller
which sessions `_close` has released.
-/

namespace Engram.Sessions

open Lib Lib.Transition

/-- Where the scheduler has a request. -/
inductive Phase where
  | queued
  | running
  /-- finished, or dropped with an `AbortReq` to the client -/
  | over
deriving DecidableEq, Repr

namespace World

def abortReq (w : World) (s : SessionRef) : World :=
  w.modifySession s fun session => { session with inflight := false }

def detachPrevious (w : World) (s : SessionRef) : Except Fault World :=
  match (w.sessions s).reqNodes.items with
  | [] => .ok w
  | [(_, prev)] => .ok (w.modifyReq (w.nodes prev).req fun req => { req with session := none })
  | _ => .error .severalNodes

def finishReq (w : World) (s : SessionRef) (r : ReqId) : Except Fault World := do
  let w ← w.detachPrevious s
  let node := w.newNode r none
  .ok (node.2.modifySession s fun session =>
    { session with
      inflight := false
      reqNodes := OrderedDict.empty.insert (w.reqs r).rid node.1 })

def allRequestsFinished (w : World) (s : SessionRef) : Bool :=
  (w.sessions s).reqNodes.items.all fun entry => (w.nodeReq entry.2).finished

def hasUnfinishedRequest (w : World) (s : SessionRef) : Except Fault Bool :=
  if (w.sessions s).streaming then
    if (w.sessions s).inflight then .ok true
    else
      match (w.sessions s).reqNodes.items with
      | [] => .ok false
      | [(_, last)] => .ok !(w.nodeReq last).finished
      | _ => .error .severalNodes
  else .ok false

def releaseFeatures (w : World) (nodes : List NodeId) : List MmRef × World :=
  nodes.foldl (fun (seen, w) n =>
    (match (w.nodeReq n).multimodalInputs with
      | some mm => if mm ∈ seen then seen else seen ++ [mm]
      | none => seen,
     w.modifyReq (w.nodes n).req fun req => { req with multimodalInputs := none })) ([], w)

end World

structure Serving where
  world : World := {}
  /-- `SessionController.sessions` -/
  sessions : OrderedDict String SessionRef := .empty
  lastReapTime : Nat := 0
  /-- the keys of `StreamingSession.slots` -/
  slots : List String := []
  phase : ReqId → Phase := fun _ => .over
  /-- `req.req_pool_idx is not None` -/
  holding : ReqId → Bool := fun _ => false
  /-- the session whose `create_req` accepted the request -/
  acceptedBy : ReqId → Option SessionRef := fun _ => none
  /-- the sessions whose resources `_close` has released -/
  closed : List SessionRef := []
  /-- the features `_close` has released -/
  releasedFeatures : List MmRef := []

namespace Serving

def setPhase (v : Serving) (r : ReqId) (phase : Phase) : Serving :=
  { v with phase := Function.update v.phase r phase }

def setHolding (v : Serving) (r : ReqId) (holding : Bool) : Serving :=
  { v with holding := Function.update v.holding r holding }

def modifyReq (v : Serving) (r : ReqId) (f : Req → Req) : Serving :=
  { v with world := v.world.modifyReq r f }

section Fields

variable (v : Serving) (r x : ReqId) (phase : Phase) (holding : Bool) (f : Req → Req)

@[simp] theorem setPhase_phase :
    (v.setPhase r phase).phase x = if x = r then phase else v.phase x :=
  Function.update_apply ..

@[simp] theorem setPhase_world : (v.setPhase r phase).world = v.world := rfl
@[simp] theorem setPhase_sessions : (v.setPhase r phase).sessions = v.sessions := rfl
@[simp] theorem setPhase_holding : (v.setPhase r phase).holding x = v.holding x := rfl

@[simp] theorem setHolding_holding :
    (v.setHolding r holding).holding x = if x = r then holding else v.holding x :=
  Function.update_apply ..

@[simp] theorem setHolding_world : (v.setHolding r holding).world = v.world := rfl

@[simp] theorem modifyReq_world :
    (v.modifyReq r f).world = v.world.modifyReq r f := rfl
@[simp] theorem modifyReq_sessions : (v.modifyReq r f).sessions = v.sessions := rfl
@[simp] theorem modifyReq_phase : (v.modifyReq r f).phase x = v.phase x := rfl
@[simp] theorem modifyReq_holding : (v.modifyReq r f).holding x = v.holding x := rfl

end Fields

/-- `_is_streaming`. -/
def streamingOf (v : Serving) (r : ReqId) : Option SessionRef :=
  (v.world.reqs r).session.filter fun s => (v.world.sessions s).streaming

/-! ### `StreamingSession` -/

def findActiveSlot (v : Serving) (r : ReqId) : Bool × Serving :=
  match v.streamingOf r with
  | none => (false, v)
  | some s =>
    if (v.world.sessions s).sessionId ∉ v.slots then (false, v)
    else if (v.world.reqs r).toFinish then
      (false, { v with
        world := (v.world.abortReq s).modifyReq r fun req => { req with session := none } })
    else (true, v)

def releaseSession (v : Serving) (id : String) : Serving :=
  { v with slots := v.slots.filter (· ≠ id) }

def tryCacheFinishedReq (v : Serving) (r : ReqId) : Except Fault Serving :=
  match v.streamingOf r with
  | none => .ok v
  | some s =>
    let id := (v.world.sessions s).sessionId
    if (v.world.reqs r).finishedReason = some .abort then
      let v := v.releaseSession id
      .ok { v with world := v.world.abortReq s }
    else do
      let world ← v.world.finishReq s r
      .ok { v with world, slots := if id ∈ v.slots then v.slots else v.slots ++ [id] }

def releaseKvCache (v : Serving) (r : ReqId) : Except Fault Serving :=
  if v.holding r then do
    let v ← v.tryCacheFinishedReq r
    .ok (v.setHolding r false)
  else .ok v

/-! ### `SessionController` -/

def addSession (v : Serving) (session : Session) : Serving :=
  { v with
    world := { v.world.modifySession v.world.nextSession (fun _ => session) with
      nextSession := v.world.nextSession + 1 }
    sessions := v.sessions.insert session.sessionId v.world.nextSession }

/-- `open` -/
def openSession (v : Serving) (id : Option String) (streaming : Bool) (timeout : Option Nat)
    (now : Nat) : Serving :=
  match id with
  | none => v
  | some id =>
    if id ∈ v.sessions then v
    else v.addSession { sessionId := id, streaming, timeout, lastActiveTime := now }

def release (v : Serving) (id : String) (s : SessionRef) : Serving :=
  let nodes := (v.world.sessions s).reqNodes.items.map (·.2)
  let w := match (v.world.sessions s).streaming, nodes with
    | true, node :: _ => v.world.modifyReq (v.world.nodes node).req fun req =>
        { req with session := none }
    | _, _ => v.world
  let (features, w) := w.releaseFeatures nodes
  { v.releaseSession id with
    world := w
    sessions := v.sessions.erase id
    closed := v.closed ++ [s]
    releasedFeatures := v.releasedFeatures ++ features }

/-- `_close` -/
def closeSession (v : Serving) (id : String) : Except Fault Serving :=
  match v.sessions.lookup id with
  | none => .error (.keyError id)
  | some s => do
    if ← v.world.hasUnfinishedRequest s then
      .ok { v with
        world := v.world.modifySession s fun session => { session with closeOnFinish := true } }
    else .ok (v.release id s)

def close (v : Serving) (id : String) : Except Fault Serving :=
  if id ∈ v.sessions then v.closeSession id else .ok v

def closeDeferred (v : Serving) (id : String) : Except Fault Serving :=
  match v.sessions.lookup id with
  | none => .error (.keyError id)
  | some s =>
    closeSession { v with
      world := v.world.modifySession s fun session => { session with closeOnFinish := false } } id

def pendingClose (v : Serving) : List String :=
  (v.sessions.items.filter fun (_, s) =>
    (v.world.sessions s).closeOnFinish && v.world.allRequestsFinished s).map (·.1)

def timedOut (v : Serving) (now : Nat) : List String :=
  (v.sessions.items.filter fun (_, s) => (v.world.sessions s).isTimedOut now).map (·.1)

def maybeReap (v : Serving) (now interval : Nat) : Except Fault Serving :=
  if v.lastReapTime + interval < now then do
    let v := { v with lastReapTime := now }
    let v ← v.pendingClose.foldlM closeDeferred v
    (v.timedOut now).foldlM closeSession v
  else .ok v

/-! ### The scheduler -/

def extendImageInputs (mm : Option MmRef) (req : Req) : Req :=
  match mm with
  | none => req
  | some mm => { req with multimodalInputs := some (req.multimodalInputs.getD mm) }

/-- The part of `handle_generate_request` for a request with a session id. The check behind
    `create_req` looks for a `finished_reason`, which it never sets, so that a rejected request
    goes the way of the others. -/
def handleGenerateRequest (v : Serving) (bosTokenId : Option Nat) (id : String) (input : ReqInput)
    (mm : Option MmRef) (now : Nat) : Except Fault Serving :=
  match (v.sessions.lookup id).filter fun s => !(v.world.sessions s).closeOnFinish with
  | some s => do
    let (r, accepted, world) ← v.world.createReq s bosTokenId input now
    .ok { v with
      world := world.modifyReq r (extendImageInputs mm)
      phase := Function.update v.phase r .queued
      holding := Function.update v.holding r false
      acceptedBy := Function.update v.acceptedBy r (if accepted then some s else none) }
  | none =>
    -- no such session, or it is closing
    let new := v.world.nextReq
    let req : Req := { rid := input.rid, originInputIds := input.inputIds,
                       originInputIdsUnpadded := input.inputIds,
                       maxNewTokens := input.maxNewTokens }
    .ok { v with
      world := { v.world.modifyReq new (fun _ => req.setFinishWithAbort) with nextReq := new + 1 }
      phase := Function.update v.phase new .queued
      holding := Function.update v.holding new false
      acceptedBy := Function.update v.acceptedBy new none }

/-- `init_next_round_input`, then `add_one_req`, which may put the request off. -/
def schedule (v : Serving) (r : ReqId) (admitted : Bool) : Serving :=
  let (active, v) := v.findActiveSlot r
  let v := v.setHolding r (v.holding r || active || admitted)
  if admitted then v.setPhase r .running else v

def updateFinishState (reason : FinishReason) (req : Req) : Req :=
  if req.finished then req
  else if req.toFinish then { req with finishedReason := some .abort, toFinish := false }
  else { req with finishedReason := some reason }

/-- A result with which the request is finished. -/
def finish (v : Serving) (r : ReqId) (reason : FinishReason) : Except Fault Serving := do
  let v ← (v.modifyReq r (updateFinishState reason)).releaseKvCache r
  .ok (v.setPhase r .over)

/-- `retract_decode`: the request goes back to the queue; the last one of the batch is aborted
    when it does not fit in memory either. -/
def retract (v : Serving) (r : ReqId) (outOfMemory : Bool) : Except Fault Serving := do
  let v := if outOfMemory then v.modifyReq r fun req => { req with toFinish := true } else v
  let v ← v.releaseKvCache r
  let v := v.modifyReq r fun req => { req with retractionCount := req.retractionCount + 1 }
  .ok (v.setPhase r (if outOfMemory then .over else .queued))

/-- Method 1 of `abort_request`: the request is dropped from the queue; one with a Mamba state
    gives it back. -/
def abortQueued (v : Serving) (r : ReqId) (holdsMamba : Bool) : Except Fault Serving := do
  let v ← if holdsMamba then v.releaseKvCache r else .ok v
  .ok (v.setPhase r .over)

inductive Event where
  | openSession (id : Option String) (streaming : Bool) (timeout : Option Nat) (now : Nat)
  | generate (id : String) (input : ReqInput) (mm : Option MmRef) (now : Nat)
  /-- a check of the scheduler fails for a queued request: `set_finish_with_abort` -/
  | preAbort (r : ReqId)
  | schedule (r : ReqId) (admitted : Bool)
  | finish (r : ReqId) (reason : FinishReason)
  /-- method 3 of `abort_request` -/
  | abortRunning (r : ReqId)
  | abortQueued (r : ReqId) (holdsMamba : Bool)
  | retract (r : ReqId) (outOfMemory : Bool)
  | close (id : String)
  | reap (now interval : Nat)
deriving DecidableEq, Repr

def step (bosTokenId : Option Nat) (v : Serving) : Event → Except Fault Serving
  | .openSession id streaming timeout now => .ok (v.openSession id streaming timeout now)
  | .generate id input mm now => v.handleGenerateRequest bosTokenId id input mm now
  | .preAbort r =>
    if v.phase r = .queued then .ok (v.modifyReq r Req.setFinishWithAbort)
    else .error .notScheduled
  | .schedule r admitted =>
    if v.phase r = .queued then .ok (v.schedule r admitted) else .error .notScheduled
  | .finish r reason => if v.phase r = .running then v.finish r reason else .error .notScheduled
  | .abortRunning r =>
    if v.phase r = .running then .ok (v.modifyReq r Req.abort) else .error .notScheduled
  | .abortQueued r holdsMamba =>
    if v.phase r = .queued then v.abortQueued r holdsMamba else .error .notScheduled
  | .retract r outOfMemory =>
    if v.phase r = .running then v.retract r outOfMemory else .error .notScheduled
  | .close id => v.close id
  | .reap now interval => v.maybeReap now interval

end Serving

end Engram.Sessions
