import Engram.Lib.OrderedDict

/-!
# Sessions

`Session` and `SessionReqNode` of `session_controller.py`. Requests, nodes and sessions are
objects with an identity, kept in heaps. A session indexes the nodes of its requests by the ids
that clients choose. A streaming session has at most one node, of the request that finished last,
and a flag for the request in flight. Clock readings are natural numbers. The sampling parameters,
the log-probability settings and the capacity of a session are left out.
-/

namespace Engram.Sessions

open Lib Function

abbrev Rid := String
abbrev ReqId := Nat
abbrev NodeId := Nat
abbrev SessionRef := Nat
/-- a `MultimodalInputs` object -/
abbrev MmRef := Nat

inductive FinishReason where
  | abort
  | regular
deriving DecidableEq, Repr

structure Req where
  rid : Rid := ""
  originInputIds : List Nat := []
  originInputIdsUnpadded : List Nat := []
  outputIds : List Nat := []
  maxNewTokens : Nat := 0
  session : Option SessionRef := none
  multimodalInputs : Option MmRef := none
  finishedReason : Option FinishReason := none
  /-- `to_finish is not None`; it is always a `FINISH_ABORT` -/
  toFinish : Bool := false
  retractionCount : Nat := 0
deriving DecidableEq, Repr

/-- `finished()` -/
def Req.finished (req : Req) : Bool :=
  req.finishedReason.isSome

def Req.abort (req : Req) : Req :=
  if req.finishedReason.isNone then { req with toFinish := true } else req

def Req.setFinishWithAbort (req : Req) : Req :=
  { req with multimodalInputs := none, originInputIds := [0], toFinish := true }

structure SessionReqNode where
  req : ReqId := 0
  parent : Option NodeId := none
  children : List NodeId := []
deriving DecidableEq, Repr

structure Session where
  sessionId : String := ""
  streaming : Bool := false
  timeout : Option Nat := none
  lastActiveTime : Nat := 0
  reqNodes : OrderedDict Rid NodeId := .empty
  closeOnFinish : Bool := false
  inflight : Bool := false

def Session.isTimedOut (session : Session) (now : Nat) : Bool :=
  match session.timeout with
  | none => false
  | some timeout => session.lastActiveTime + timeout < now

structure SessionParams where
  id : Option String := none
  rid : Option Rid := none
  offset : Option Int := none
  replace : Bool := false
  dropPreviousOutput : Bool := false
deriving DecidableEq, Repr

structure ReqInput where
  rid : Rid
  inputIds : List Nat
  sessionParams : SessionParams
  maxNewTokens : Nat := 0
deriving DecidableEq, Repr

/-- The exceptions that can be raised. -/
inductive Fault where
  /-- "RuntimeError: dictionary changed size during iteration" -/
  | dictionaryChangedSize
  /-- `del req_dict[self.req.rid]` without such a key -/
  | keyError (rid : Rid)
  /-- `assert len(self.req_nodes) == 1` -/
  | severalNodes
  /-- the recursion does not end -/
  | diverges
  /-- the scheduler does not do this in this state -/
  | notScheduled
deriving DecidableEq, Repr

/-- The objects. -/
structure World where
  reqs : ReqId → Req := fun _ => {}
  nextReq : ReqId := 0
  nodes : NodeId → SessionReqNode := fun _ => {}
  nextNode : NodeId := 0
  sessions : SessionRef → Session := fun _ => {}
  nextSession : SessionRef := 0

namespace World

def modifyReq (w : World) (r : ReqId) (f : Req → Req) : World :=
  { w with reqs := Function.update w.reqs r (f (w.reqs r)) }

def modifyNode (w : World) (n : NodeId) (f : SessionReqNode → SessionReqNode) : World :=
  { w with nodes := Function.update w.nodes n (f (w.nodes n)) }

def modifySession (w : World) (s : SessionRef) (f : Session → Session) : World :=
  { w with sessions := Function.update w.sessions s (f (w.sessions s)) }

section Fields

variable (w : World) (r x : ReqId) (f : Req → Req) (n : NodeId) (s other : SessionRef)
  (g : Session → Session) (m : NodeId) (h : SessionReqNode → SessionReqNode)

@[grind =] theorem modifyReq_reqs :
    (w.modifyReq r f).reqs x = if x = r then f (w.reqs r) else w.reqs x :=
  update_apply ..

@[simp, grind =] theorem modifyReq_nextReq : (w.modifyReq r f).nextReq = w.nextReq := rfl
@[simp, grind =] theorem modifyReq_nodes : (w.modifyReq r f).nodes n = w.nodes n := rfl
@[simp, grind =] theorem modifyReq_nextNode : (w.modifyReq r f).nextNode = w.nextNode := rfl
@[simp, grind =] theorem modifyReq_sessions : (w.modifyReq r f).sessions s = w.sessions s := rfl
@[simp, grind =] theorem modifyReq_nextSession :
    (w.modifyReq r f).nextSession = w.nextSession := rfl

@[grind =] theorem modifySession_sessions :
    (w.modifySession s g).sessions other =
      if other = s then g (w.sessions s) else w.sessions other :=
  update_apply ..

@[simp, grind =] theorem modifySession_reqs : (w.modifySession s g).reqs r = w.reqs r := rfl
@[simp, grind =] theorem modifySession_nextReq : (w.modifySession s g).nextReq = w.nextReq := rfl
@[simp, grind =] theorem modifySession_nodes : (w.modifySession s g).nodes n = w.nodes n := rfl
@[simp, grind =] theorem modifySession_nextNode : (w.modifySession s g).nextNode = w.nextNode := rfl
@[simp, grind =] theorem modifySession_nextSession :
    (w.modifySession s g).nextSession = w.nextSession := rfl
@[grind =] theorem modifyNode_nodes :
    (w.modifyNode n h).nodes m = if m = n then h (w.nodes n) else w.nodes m :=
  update_apply ..

end Fields

def nodeReq (w : World) (n : NodeId) : Req :=
  w.reqs (w.nodes n).req

/-! ### Nodes -/

/-- `SessionReqNode(req, parent)`. -/
def newNode (w : World) (req : ReqId) (parent : Option NodeId) : NodeId × World :=
  let new := w.nextNode
  let w := match parent with
    | none => w
    | some p => w.modifyNode p (fun node => { node with children := node.children ++ [new] })
  (new, { w.modifyNode new (fun _ => { req, parent, children := [] }) with nextNode := new + 1 })

section NewNode

variable (w : World) (r x : ReqId) (parent : Option NodeId) (n : NodeId) (s : SessionRef)

@[simp, grind =] theorem newNode_fst : (w.newNode r parent).1 = w.nextNode := by
  cases parent <;> rfl

@[simp, grind =] theorem newNode_nextNode : (w.newNode r parent).2.nextNode = w.nextNode + 1 := by
  cases parent <;> rfl

@[simp, grind =] theorem newNode_reqs : (w.newNode r parent).2.reqs x = w.reqs x := by
  cases parent <;> rfl

@[simp, grind =] theorem newNode_nextReq : (w.newNode r parent).2.nextReq = w.nextReq := by
  cases parent <;> rfl

@[simp, grind =] theorem newNode_sessions : (w.newNode r parent).2.sessions s = w.sessions s := by
  cases parent <;> rfl

@[simp, grind =] theorem newNode_nextSession :
    (w.newNode r parent).2.nextSession = w.nextSession := by
  cases parent <;> rfl

@[grind =] theorem newNode_req : ((w.newNode r parent).2.nodes n).req =
    if n = w.nextNode then r else (w.nodes n).req := by
  cases parent <;> simp only [newNode] <;> grind

end NewNode

/-- `del req_dict[rid]` -/
def deleteNode (w : World) (s : SessionRef) (rid : Rid) : Except Fault World :=
  if rid ∈ (w.sessions s).reqNodes then
    .ok (w.modifySession s fun session => { session with reqNodes := session.reqNodes.erase rid })
  else .error (.keyError rid)

def clear (s : SessionRef) : Nat → World → NodeId → Except Fault World
  | 0, _, _ => .error .diverges
  | fuel + 1, w, n => do
    let w ← (w.nodes n).children.foldlM (clear s fuel) w
    (w.modifyReq (w.nodes n).req Req.abort).deleteNode s (w.nodeReq n).rid

def clearChildren (w : World) (s : SessionRef) (n : NodeId) : Except Fault World := do
  let w ← (w.nodes n).children.foldlM (clear s w.nextNode) w
  .ok (w.modifyNode n fun node => { node with children := [] })

/-- `for _, req_node in self.req_nodes.items(): req_node.clear(self.req_nodes)`. Each round
    deletes at least one entry, so that the next one finds the dictionary changed. -/
def clearAll (w : World) (s : SessionRef) : Except Fault World :=
  match (w.sessions s).reqNodes.items with
  | [] => .ok w
  | (_, n) :: _ => do
    let _ ← clear s w.nextNode w n
    .error .dictionaryChangedSize

/-! ### `create_req` -/

structure Resolved where
  lastReqNode : Option NodeId := none
  abortMessage : Option String := none

def resolveStreaming (session : Session) (params : SessionParams) : Except Fault Resolved :=
  if session.inflight then
    .ok { abortMessage := some "Streaming session already has an active request." }
  else if params.replace then
    .ok { abortMessage := some "Streaming sessions do not support replace." }
  else if params.dropPreviousOutput then
    .ok { abortMessage := some "Streaming sessions do not support drop_previous_output." }
  else if params.offset.getD 0 ≠ 0 then
    .ok { abortMessage := some "Streaming sessions do not support offset." }
  else
    match session.reqNodes.items with
    | [] => .ok {}
    | [(_, node)] => .ok { lastReqNode := some node }
    | _ => .error .severalNodes

def resolveReplace (w : World) (s : SessionRef) (params : SessionParams) :
    Except Fault (Resolved × World) :=
  match params.rid with
  | none => do
    let w ← w.clearAll s
    .ok ({}, w)
  | some rid =>
    match (w.sessions s).reqNodes.lookup rid with
    | none => .ok ({ abortMessage := some "Invalid request session id" }, w)
    | some node => do
      let w ← (w.modifyReq (w.nodes node).req Req.abort).clearChildren s node
      .ok ({ lastReqNode := some node }, w)

def resolveAppend (w : World) (s : SessionRef) (params : SessionParams) : Resolved :=
  match params.rid with
  | none => {}
  | some rid =>
    match (w.sessions s).reqNodes.lookup rid with
    | none => { abortMessage := some "Invalid request session id" }
    | some node =>
      { lastReqNode := some node
        abortMessage :=
          if (w.nodeReq node).finished then none
          else some "Session request is appending to a request that hasn't finished." }

def resolve (w : World) (s : SessionRef) (params : SessionParams) :
    Except Fault (Resolved × World) :=
  if (w.sessions s).streaming then do
    let resolved ← resolveStreaming (w.sessions s) params
    .ok (resolved, w)
  else if params.replace then w.resolveReplace s params
  else .ok (w.resolveAppend s params, w)

/-- `xs[:stop]` of Python. -/
def sliceTo (xs : List Nat) (stop : Int) : List Nat :=
  if 0 ≤ stop then xs.take stop.toNat else xs.take (xs.length - stop.natAbs)

def withContext (origin : List Nat) (last : Req) (params : SessionParams) (inputIds : List Nat) :
    List Nat :=
  let context :=
    if params.dropPreviousOutput then origin else origin ++ last.outputIds.take last.maxNewTokens
  if params.offset.getD 0 ≠ 0 then sliceTo context (params.offset.getD 0) ++ inputIds
  else context ++ inputIds

def newReq (w : World) (s : SessionRef) (bosTokenId : Option Nat) (input : ReqInput)
    (lastReqNode : Option NodeId) : Req :=
  match lastReqNode.map w.nodeReq with
  | none =>
    { rid := input.rid
      originInputIds := input.inputIds
      originInputIdsUnpadded := input.inputIds
      maxNewTokens := input.maxNewTokens
      session := some s }
  | some last =>
    -- the token that begins a text is dropped in an append
    let inputIds :=
      if bosTokenId.isSome && input.inputIds.head? == bosTokenId then input.inputIds.tail
      else input.inputIds
    { rid := input.rid
      originInputIds := withContext last.originInputIds last input.sessionParams inputIds
      originInputIdsUnpadded :=
        withContext last.originInputIdsUnpadded last input.sessionParams inputIds
      maxNewTokens := input.maxNewTokens
      session := some s
      multimodalInputs := last.multimodalInputs }

/-- What `create_req` does with the new request: a rejected one is only marked. -/
def record (w : World) (s : SessionRef) (new : ReqId) (rid : Rid) (resolved : Resolved) : World :=
  match resolved.abortMessage with
  | some _ => w.modifyReq new Req.setFinishWithAbort
  | none =>
    if (w.sessions s).streaming then w.modifySession s fun session =>
      { session with inflight := true }
    else
      let (node, w) := w.newNode new resolved.lastReqNode
      w.modifySession s fun session => { session with reqNodes := session.reqNodes.insert rid node }

def createReq (w : World) (s : SessionRef) (bosTokenId : Option Nat) (input : ReqInput)
    (now : Nat) : Except Fault (ReqId × Bool × World) := do
  let w := w.modifySession s fun session => { session with lastActiveTime := now }
  let (resolved, w) ← w.resolve s input.sessionParams
  let new := w.nextReq
  let req := w.newReq s bosTokenId input resolved.lastReqNode
  let w := { w.modifyReq new (fun _ => req) with nextReq := new + 1 }
  .ok (new, resolved.abortMessage.isNone, w.record s new input.rid resolved)

end World

end Engram.Sessions
