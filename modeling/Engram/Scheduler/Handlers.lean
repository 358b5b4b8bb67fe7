import Engram.Scheduler.Queue

/-!
# The request handlers of the scheduler

`handle_restore_snapshot` of `scheduler_snapshot_handlers.py`, and
`handle_generate_request` and `abort_request` of `scheduler.py`. What the snapshot
manager finds is an argument of the restore handler.
-/

namespace Engram.Scheduler

open Engram.Lib Engram.Memory Engram.Restore Engram.Snapshot

variable {τ : Type}

/-! ### Restore -/

/-- `RestoreSnapshotReqInput`. -/
structure RestoreReq where
  rid : Key
  conversationId : Key := none
  turnNumber : Option Int := none
  branchName : Option String := none
  createNewRequest : Bool := false
  continuationIds : Option (List Nat) := none
deriving DecidableEq, Repr

structure LoadedSnapshot (τ : Type) where
  convStates : List τ
  temporalStates : τ
  modelName : Key := none
  fillIds : Option (List Nat)
  tokenCount : Nat := 0

/-- The answers of the snapshot manager and of the warm tier at the time of a call. A load
    that raises finds nothing. -/
structure SnapshotSource (τ : Type) where
  latestTurn : Key → Option Int
  load : Key → Option Int → Option String → Option (LoadedSnapshot τ)
  loadForPending : Key → Option Int → Option String → Option (LoadedSnapshot τ)

/-- A store with one snapshot, found under every key. -/
def SnapshotSource.always (snapshot : LoadedSnapshot τ) : SnapshotSource τ where
  latestTurn := fun _ => some 1
  load := fun _ _ _ => some snapshot
  loadForPending := fun _ _ _ => some snapshot

inductive RestoreReply where
  /-- "No snapshots found for conversation=…" -/
  | noSnapshots (conversation : Key)
  /-- "Snapshot not found: conversation=…, turn=…, branch=…" -/
  | notFound (conversation : Key) (turn : Option Int) (branch : Option String)
  /-- "Model mismatch: snapshot from '…', server running '…'" -/
  | modelMismatch (snapshot : Key) (running : String)
  /-- "No free Mamba pool slots available" -/
  | noFreeSlots
  /-- "Snapshot is incompatible: fill_ids missing. …" -/
  | fillIdsMissing
  /-- "Input length (…) meets or exceeds max_req_input_len (…). …" -/
  | inputTooLong (length maxReqInputLen : Nat)
  /-- "Error creating new request from snapshot: …" -/
  | createFailed
  /-- "Created new request from snapshot. rid=…, mamba_pool_idx=…" -/
  | created (rid : String) (slot : Nat) (tokenCount : Nat)
  /-- "Snapshot staged for next request (rid=…, conversation_id=…)" -/
  | staged (rid : Key) (conversation : Key) (tokenCount : Nat)
  /-- "Cannot restore snapshot while request is running. …" -/
  | requestRunning
  /-- "Request does not have Mamba state allocated" -/
  | noMambaState
  /-- "Error restoring snapshot: …" -/
  | restoreFailed
  /-- "Snapshot restored successfully" -/
  | restored (rid : Key) (slot : Nat) (tokenCount : Nat)
deriving DecidableEq, Repr

def RestoreReply.success : RestoreReply → Bool
  | .created .. => true
  | .staged .. => true
  | .restored .. => true
  | _ => false

def modelDiffers (cfg : Config) (snapshot : LoadedSnapshot τ) : Bool :=
  cfg.modelPath != "" && snapshot.modelName.truthy && snapshot.modelName != some cfg.modelPath

/-- The request `handle_restore_snapshot` builds around an injected slot. -/
def restoredReq (uid : Nat) (newRid : String) (conversationId : Key) (slot : Nat)
    (originInputIds : List Nat) (statefulGenerate : Bool) : Req where
  uid := uid
  rid := newRid
  conversationId := conversationId
  originInputIds := originInputIds
  fillIds := originInputIds
  mambaPoolIdx := some slot
  statefulGenerate := statefulGenerate

/-- The fields a live restore overwrites. -/
def Req.syncRestored (req : Req) (conversation : Key) (fillIds : List Nat) : Req :=
  { req with fillIds, originInputIds := fillIds, conversationId := conversation }

def changeReq (uid : Nat) (f : Req → Req) (req : Req) : Req :=
  if req.uid = uid then f req else req

/-- Change the object with this number, wherever it is held. -/
def State.modify (s : State τ) (uid : Nat) (f : Req → Req) : State τ :=
  { s with
    runningBatch := s.runningBatch.map (changeReq uid f)
    lastBatch := s.lastBatch.map (changeReq uid f)
    chunkedReq := s.chunkedReq.map (changeReq uid f)
    waitingQueue := s.waitingQueue.map (changeReq uid f) }

def State.findIdle (s : State τ) (rid : String) : Option Req :=
  (s.lastBatch ++ s.chunkedReq.toList ++ s.waitingQueue).find? (·.rid == rid)

section Restore

variable [Torch τ]

/-- The create path from the allocation on. Each refusal and each exception frees
    the new slot; a request that `_add_request_to_queue` turns away does not raise. -/
def createFromSnapshot (cfg : Config) (s : State τ) (recv : RestoreReq) (conversation : Key)
    (snapshot : LoadedSnapshot τ) (newRid : String) : State τ × Option RestoreReply :=
  match s.mem.allocSlot with
  | none => (s, some .noFreeSlots)
  | some (slot, mem) =>
    match injectStateToPool snapshot.convStates snapshot.temporalStates mem.pool slot with
    | (some _, pool) =>
      ({ s with mem := { mem with pool }.freeSlot slot }, some .createFailed)
    | (none, pool) =>
      let mem := { mem with pool }
      match snapshot.fillIds with
      | none => ({ s with mem := mem.freeSlot slot }, some .fillIdsMissing)
      | some fillIds =>
        let originInputIds := fillIds ++ recv.continuationIds.getD []
        if recv.continuationIds.isSome && cfg.maxReqInputLen ≤ originInputIds.length then
          ({ s with mem := mem.freeSlot slot },
            some (.inputTooLong originInputIds.length cfg.maxReqInputLen))
        else
          let req := restoredReq s.nextUid newRid conversation slot originInputIds
            recv.continuationIds.isSome
          match addRequestToQueue cfg { s with mem, nextUid := s.nextUid + 1 } req with
          | .error _ => ({ s with mem := mem.freeSlot slot }, some .createFailed)
          | .ok s =>
            -- the output of a stateful generation is sent when it has finished
            (s, if recv.continuationIds.isSome then none
              else some (.created newRid slot snapshot.tokenCount))

def resolveTurn (source : SnapshotSource τ) (recv : RestoreReq) (conversation : Key) :
    Option (Option Int) :=
  if recv.turnNumber.isNone && recv.branchName.isNone then
    (source.latestTurn conversation).map some
  else some recv.turnNumber

/-- `handle_restore_snapshot` with `create_new_request`. -/
def handleCreate (cfg : Config) (s : State τ) (source : SnapshotSource τ) (recv : RestoreReq)
    (newRid : String) : State τ × Option RestoreReply :=
  let conversation := Key.or recv.conversationId recv.rid
  match resolveTurn source recv conversation with
  | none => (s, some (.noSnapshots conversation))
  | some turn =>
    match source.load conversation turn recv.branchName with
    | none => (s, some (.notFound conversation turn recv.branchName))
    | some snapshot =>
      if modelDiffers cfg snapshot then
        (s, some (.modelMismatch snapshot.modelName cfg.modelPath))
      else createFromSnapshot cfg s recv conversation snapshot newRid

def handleStage (cfg : Config) (s : State τ) (source : SnapshotSource τ) (recv : RestoreReq) :
    State τ × Option RestoreReply :=
  let conversation := Key.or recv.conversationId recv.rid
  match source.loadForPending conversation recv.turnNumber recv.branchName with
  | none => (s, some (.notFound conversation recv.turnNumber recv.branchName))
  | some snapshot =>
    if modelDiffers cfg snapshot then
      (s, some (.modelMismatch snapshot.modelName cfg.modelPath))
    else
      let pending := s.pending.stagePendingRestore s.clock recv.rid conversation
        snapshot.convStates snapshot.temporalStates snapshot.fillIds
      ({ s with pending }, some (.staged recv.rid conversation snapshot.tokenCount))

/-- `handle_restore_snapshot` for a request that is there. -/
def handleLive (cfg : Config) (s : State τ) (source : SnapshotSource τ) (recv : RestoreReq)
    (req : Req) : State τ × Option RestoreReply :=
  let conversation := Key.or recv.conversationId recv.rid
  match req.mambaPoolIdx with
  | none => (s, some .noMambaState)
  | some slot =>
    match source.load conversation recv.turnNumber recv.branchName with
    -- here the exception of `load_snapshot` reaches the outer handler
    | none => (s, some .restoreFailed)
    | some snapshot =>
      if modelDiffers cfg snapshot then
        (s, some (.modelMismatch snapshot.modelName cfg.modelPath))
      else
        match snapshot.fillIds with
        | none => (s, some .fillIdsMissing)
        | some fillIds =>
          match injectStateToPool snapshot.convStates snapshot.temporalStates s.mem.pool slot with
          | (some _, pool) => ({ s with mem := { s.mem with pool } }, some .restoreFailed)
          | (none, pool) =>
            let s := { s with
              mem := { s.mem with pool }
              pending := s.pending.clearPendingRestore recv.rid conversation }
            (s.modify req.uid (·.syncRestored conversation fillIds),
              some (.restored recv.rid slot snapshot.tokenCount))

/-- `handle_restore_snapshot`: the state left behind and the reply, if one is sent
    now. -/
def handleRestoreSnapshot (cfg : Config) (s : State τ) (source : SnapshotSource τ)
    (recv : RestoreReq) (newRid : String) : State τ × Option RestoreReply :=
  if recv.createNewRequest then handleCreate cfg s source recv newRid
  else
    match recv.rid with
    | none => handleStage cfg s source recv
    | some rid =>
      if s.runningBatch.any (·.rid == rid) then (s, some .requestRunning)
      else
        match s.findIdle rid with
        | none => handleStage cfg s source recv
        | some req => handleLive cfg s source recv req

end Restore

/-! ### Generate -/

/-- What `handle_generate_request` reads of a `TokenizedGenerateReqInput`. -/
structure GenerateReq where
  rid : String
  conversationId : Key := none
  priority : Option Int := none
  inputIds : List Nat
  /-- message of the checks on log probabilities and routed experts, if one fails -/
  inputError : Option String := none
deriving DecidableEq, Repr

def validateInputLength (cfg : Config) (req : Req) : Option String × Req :=
  if cfg.maxReqInputLen ≤ req.originInputIds.length then
    if cfg.allowAutoTruncate then
      (none, { req with originInputIds := req.originInputIds.take cfg.maxReqInputLen })
    else
      (some ("Input length (" ++ toString req.originInputIds.length ++
        " tokens) exceeds the maximum allowed length (" ++ toString cfg.maxReqInputLen ++
        " tokens). Use a shorter input or enable --allow-auto-truncate."), req)
  else (none, req)

/-- The checks after hydration. -/
def validated (cfg : Config) (recv : GenerateReq) (req : Req) : Req :=
  match validateInputLength cfg req with
  | (some errorMsg, req) => req.setFinishWithAbort errorMsg
  | (none, req) =>
    match recv.inputError with
    | some errorMsg => req.setFinishWithAbort errorMsg
    | none => req

def hydrationFailed (rid : String) : String :=
  "Pending-restore hydration failed for rid=" ++ rid ++
    ": snapshot was staged but could not be applied (pool exhaustion or inject error). " ++
    "Check server logs and pool capacity."

/-- The request `handle_generate_request` builds. -/
def GenerateReq.toReq (recv : GenerateReq) (uid : Nat) : Req where
  uid := uid
  rid := recv.rid
  conversationId := recv.conversationId
  priority := recv.priority
  originInputIds := recv.inputIds

def handleGenerateRequest [Torch τ] (cfg : Config) (s : State τ) (recv : GenerateReq) :
    Except Fault (State τ) :=
  let (result, pending, pool, req) :=
    maybeHydrateFromPendingRestore s.pending (some s.mem.pool) (recv.toReq s.nextUid)
  let s := { s with
    pending
    mem := { s.mem with pool := pool.getD s.mem.pool }
    nextUid := s.nextUid + 1 }
  let req :=
    if result = .failed then req.setFinishWithAbort (hydrationFailed req.rid)
    else validated cfg recv req
  addRequestToQueue cfg s req

/-! ### Abort -/

/-- `AbortReq` as the scheduler receives it. -/
structure AbortReq where
  rid : String
  abortAll : Bool := false
deriving DecidableEq, Repr

def AbortReq.hits (recv : AbortReq) (req : Req) : Bool :=
  recv.abortAll || recv.rid.toList.isPrefixOf req.rid.toList

/-- The first loop of `abort_request`, from the end of the queue to its start. -/
def abortQueued (cfg : Config) (recv : AbortReq) (mem : Memory τ) :
    List Req → Except Fault (Memory τ × List Req)
  | [] => .ok (mem, [])
  | req :: queue => do
    let (mem, kept) ← abortQueued cfg recv mem queue
    if recv.hits req then
      if req.mambaPoolIdx.isSome then do
        let (mem, _) ← releaseKvCache cfg.cache mem req false true
        .ok (mem, kept)
      else .ok (mem, kept)
    else .ok (mem, req :: kept)

/-- Requests in a batch finish with their next result. -/
def AbortReq.mark (recv : AbortReq) (req : Req) : Req :=
  if !req.finished && recv.hits req then
    { req with toFinish := some (.abort "Aborted") }
  else req

def abortRequest (cfg : Config) (s : State τ) (recv : AbortReq) : Except Fault (State τ) := do
  let (mem, waitingQueue) ← abortQueued cfg recv s.mem s.waitingQueue
  .ok { s with
    mem
    waitingQueue
    outbox := s.outbox ++
      ((s.waitingQueue.filter recv.hits).reverse.map (fun req => ⟨req.rid, none⟩))
    lastBatch := s.lastBatch.map recv.mark
    runningBatch := s.runningBatch.map recv.mark
    chunkedReq := s.chunkedReq.map recv.mark }

end Engram.Scheduler
