import Engram.Lib.AsyncQueue
import Engram.Scheduler.Step

/-!
# Restore calls

The callers of `restore_snapshot` in `tokenizer_manager.py`, the scheduler they talk to,
the outputs of stateful generations (`output_streamer.py`), and the dispatcher that puts
every `RestoreSnapshotReqOutput` into one result queue.
-/

namespace Engram.Tokenizer

open Lib Scheduler Snapshot

variable {τ : Type}

/-- One call of `restore_snapshot`. Its number is in no message: `request_id` of the
    input is not copied into any output. -/
structure Call where
  number : Nat
  recv : RestoreReq
deriving DecidableEq, Repr

def Call.stateful (call : Call) : Bool :=
  call.recv.createNewRequest && call.recv.continuationIds.isSome

/-- The content of a `RestoreSnapshotReqOutput`: a reply of the handler, or the output of
    a stateful generation. -/
inductive OutputBody where
  | replied (reply : RestoreReply)
  | generated (success : Bool) (rid : String) (outputIds : List Nat)
deriving DecidableEq, Repr

/-- A `RestoreSnapshotReqOutput` with its history: the call it was produced for. -/
structure Output where
  call : Call
  body : OutputBody
deriving DecidableEq, Repr

inductive Message where
  | restoreOutput (output : Output)
  | abort (notice : AbortNotice)
deriving DecidableEq, Repr

structure System (τ : Type) where
  sched : State τ
  /-- restore requests on their way to the scheduler -/
  requests : List Call := []
  /-- stateful generations whose output has not been sent, by the identity of the request -/
  deferred : List (Nat × Call) := []
  /-- messages on their way to the tokenizer manager -/
  messages : List Message := []
  /-- `snapshot_restore_result_queue` -/
  resultQueue : AsyncQueue Output Call := {}
  /-- callers between `send_pyobj` and `get` -/
  sent : List Call := []
  received : List (Call × Output) := []
  /-- the keys of `rid_to_state`; the entries of finished calls are kept -/
  ridToState : List String := []
  nextCall : Nat := 0

namespace System

/-- Callers that have sent their request and received nothing, in the order in which the
    result queue will serve them. -/
def outstanding (s : System τ) : List Call :=
  s.resultQueue.line ++ s.sent

/-! ### Callers -/

def sendRestore (s : System τ) (recv : RestoreReq) : System τ :=
  let call : Call := ⟨s.nextCall, recv⟩
  { s with
    requests := s.requests ++ [call]
    sent := s.sent ++ [call]
    nextCall := s.nextCall + 1 }

def receive (s : System τ) (call : Call) (outcome : Option Output × AsyncQueue Output Call) :
    System τ :=
  { s with
    resultQueue := outcome.2
    received := s.received ++ (outcome.1.map (call, ·)).toList }

def awaitResult (s : System τ) (call : Call) : System τ :=
  if call ∈ s.sent then
    { s with sent := s.sent.erase call }.receive call (s.resultQueue.get call)
  else s

def wakeUp (s : System τ) : System τ :=
  match s.resultQueue.resume with
  | none => s
  | some (call, outcome) => s.receive call outcome

/-! ### The scheduler -/

def newNotices (before after : State τ) : List Message :=
  (after.outbox.drop before.outbox.length).map .abort

def handleRestore [Torch τ] (cfg : Config) (s : System τ) (source : SnapshotSource τ)
    (newRid : String) : System τ :=
  match s.requests with
  | [] => s
  | call :: requests =>
    match handleRestoreSnapshot cfg s.sched source call.recv newRid with
    | (sched, some reply) =>
      { s with
        sched, requests
        messages := s.messages ++ newNotices s.sched sched ++
          [.restoreOutput ⟨call, .replied reply⟩] }
    | (sched, none) =>
      { s with
        sched, requests
        messages := s.messages ++ newNotices s.sched sched
        deferred := s.deferred ++ [(s.sched.nextUid, call)] }

/-- What is sent for a stateful generation that has finished. The streamer asks the finish
    reason for an attribute `type`, which no reason has, so `success` is also sent for a
    request that was aborted. -/
def generatedOutput (call : Call) (req : Req) : Output where
  call := call
  body := .generated true req.rid req.outputIdsThroughStop

/-- `_stream_output_generation` for the stateful generations of a batch. An output is sent
    once (`finished_output`). -/
def streamOutput (deferred : List (Nat × Call)) : List Req → List Output × List (Nat × Call)
  | [] => ([], deferred)
  | req :: reqs =>
    if req.statefulGenerate && req.finished then
      match deferred.find? (·.1 == req.uid) with
      | some entry =>
        let (outputs, deferred) := streamOutput (deferred.erase entry) reqs
        (generatedOutput entry.2 req :: outputs, deferred)
      | none => streamOutput deferred reqs
    else streamOutput deferred reqs

inductive Stop where
  | scheduler (fault : Fault)
  /-- an abort notice for a request that no caller waits for -/
  | keyError (rid : String)
deriving DecidableEq, Repr

/-- An event of the scheduler that sends no output. -/
def schedule [Torch τ] (cfg : Config) (model : Model τ) (s : System τ)
    (event : Scheduler.Event τ) : Except Stop (System τ) :=
  match step cfg model s.sched event with
  | .error fault => .error (.scheduler fault)
  | .ok sched => .ok { s with sched, messages := s.messages ++ newNotices s.sched sched }

def iterate [Torch τ] (cfg : Config) (model : Model τ) (s : System τ)
    (event : Scheduler.Event τ) : Except Stop (System τ) :=
  match step cfg model s.sched event with
  | .error fault => .error (.scheduler fault)
  | .ok sched =>
    let (outputs, deferred) := streamOutput s.deferred (sched.lastBatch ++ sched.runningBatch)
    .ok { s with
      sched, deferred
      messages := s.messages ++ newNotices s.sched sched ++ outputs.map .restoreOutput }

/-! ### The dispatcher -/

/-- `handle_loop` takes the next message. `_handle_abort_req` looks the request up in
    `rid_to_state`, which has no entry for a request made by a restore. -/
def dispatch (s : System τ) : Except Stop (System τ) :=
  match s.messages with
  | [] => .ok s
  | .restoreOutput output :: messages =>
    .ok { s with messages, resultQueue := s.resultQueue.putNowait output }
  | .abort notice :: messages =>
    if notice.rid ∈ s.ridToState then .ok { s with messages } else .error (.keyError notice.rid)

end System

/-! ### Runs -/

inductive Event (τ : Type) where
  | sendRestore (recv : RestoreReq)
  | awaitResult (call : Call)
  | wakeUp
  | handleRestore (source : SnapshotSource τ) (newRid : String)
  | generate (recv : GenerateReq)
  | abort (recv : AbortReq)
  | advance (seconds : Nat)
  | prefill (plan : PrefillPlan)
  | decode (plan : DecodePlan)
  | dispatch

def step [Torch τ] (cfg : Config) (model : Model τ) (s : System τ) :
    Event τ → Except System.Stop (System τ)
  | .sendRestore recv => .ok (s.sendRestore recv)
  | .awaitResult call => .ok (s.awaitResult call)
  | .wakeUp => .ok s.wakeUp
  | .handleRestore source newRid => .ok (s.handleRestore cfg source newRid)
  | .generate recv =>
    { s with ridToState := s.ridToState ++ [recv.rid] }.schedule cfg model (.generate recv)
  | .abort recv => s.schedule cfg model (.abort recv)
  | .advance seconds => s.schedule cfg model (.advance seconds)
  | .prefill plan => s.iterate cfg model (.prefill plan)
  | .decode plan => s.iterate cfg model (.decode plan)
  | .dispatch => s.dispatch

def run [Torch τ] (cfg : Config) (model : Model τ) (s : System τ) (events : List (Event τ)) :
    Except System.Stop (System τ) :=
  Transition.run (step cfg model) s events

end Engram.Tokenizer
