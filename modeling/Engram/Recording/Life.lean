import Engram.Scheduler.Batch
import Engram.Snapshot.Store

/-!
# One request and the snapshots of its live state

The life of a request between its arrival and its finish, with the functions of the
scheduler's batches on the request and on its slot, and the two places that store the
live state: the post-forward callback of `scheduler_snapshot_system.py` and
`handle_save_snapshot`. The history `consumed` is what the state in the slot has seen.
-/

namespace Engram.Recording

open Lib Memory Restore Scheduler Snapshot

variable {τ : Type}

inductive Phase where
  | waiting
  /-- between two chunks of the prompt -/
  | chunked
  | running
  | finished
deriving DecidableEq, Repr

structure Life (τ : Type) where
  req : Req
  pool : MambaPool τ
  phase : Phase := .waiting
  /-- history: the tokens the state in the slot has consumed since the empty state -/
  consumed : List Nat := []

/-- `init_next_round_input`: a chunked request has been stashed with its tokens so far as
    prefix, a waiting one finds none. -/
def Life.nextRoundInput (life : Life τ) : Req :=
  match life.phase with
  | .chunked => { life.req.resetFillIds with prefixLen := life.req.fillIds.length }
  | _ => { life.req.resetFillIds with prefixLen := 0 }

def place (req : Req) (row slot : Nat) : Req :=
  let req := if req.reqPoolIdx.isSome then req else { req with reqPoolIdx := some row }
  if req.mambaPoolIdx.isSome then req
  else { req with mambaPoolIdx := some slot, mambaNeedsClear := true }

def hasInitialState (req : Req) : Bool :=
  0 < req.prefixLen || req.mambaHasRestoredState

/-- The request with its memory, before the pending clear. -/
def Life.admitted (life : Life τ) (chunk : Option Nat) (row slot : Nat) : Req :=
  place (life.nextRoundInput.truncate chunk) row slot

/-- An iteration with the request in the prefill batch. A request that finishes here has
    given its memory back before the callback runs. -/
def Life.prefill [Torch τ] (model : Model τ) (life : Life τ) (chunk : Option Nat)
    (row slot : Nat) (outcome : Outcome) : Life τ :=
  let pool := runDeferred life.pool [life.admitted chunk row slot]
  let req := (life.admitted chunk row slot).clearDeferred
  let consumed :=
    (if hasInitialState req then life.consumed else []) ++ req.fillIds.drop req.prefixLen
  let pool := forwardExtend model pool req
  if req.inChunk then { req := req.endChunk, pool, phase := .chunked, consumed }
  else
    let req := req.accept outcome
    if req.finished then
      { req := { req with reqPoolIdx := none }, pool, phase := .finished, consumed }
    else { req, pool, phase := .running, consumed }

/-- An iteration with the request in the decode batch. A request that finishes still has
    its memory when `_handle_finished_req` runs the callback. -/
def Life.decode (model : Model τ) (life : Life τ) (outcome : Outcome) : Life τ :=
  let req := life.req.accept outcome
  { req
    pool := forwardDecode model life.pool life.req
    phase := if req.finished then .finished else .running
    consumed := life.consumed ++ (life.req.originInputIds ++ life.req.outputIds).getLast?.toList }

def Life.retract (life : Life τ) : Life τ :=
  { life with
    req := { life.req.resetForRetract with reqPoolIdx := none }
    phase := .waiting
    consumed := [] }

inductive Event where
  | prefill (chunk : Option Nat) (row slot : Nat) (outcome : Outcome)
  | decode (outcome : Outcome)
  | retract
deriving DecidableEq, Repr

/-- The request is not in the batch that the event needs it in. -/
inductive Disabled where
  | disabled
deriving DecidableEq, Repr

def step [Torch τ] (model : Model τ) (life : Life τ) : Event → Except Disabled (Life τ)
  | .prefill chunk row slot outcome =>
    if life.phase = .waiting ∨ life.phase = .chunked then
      .ok (life.prefill model chunk row slot outcome)
    else .error .disabled
  | .decode outcome =>
    if life.phase = .running then .ok (life.decode model outcome) else .error .disabled
  | .retract => if life.phase = .running then .ok life.retract else .error .disabled

def run [Torch τ] (model : Model τ) (life : Life τ) (events : List Event) :
    Except Disabled (Life τ) :=
  Transition.run (step model) life events

/-! ### Snapshots -/

/-- What the metadata takes from the server. -/
structure Server where
  modelPath : String
  numMambaLayers : Nat
deriving DecidableEq, Repr

/-- `extract_state_from_pool`, followed by the metadata of the two callers. The row is
    converted with `int`, which raises for `None`. -/
def storeLive [DecidableEq τ] [Torch τ] (server : Server) (now : Nat) (conversationId : String)
    (turnNumber : Int) (branchName : Option String) (life : Life τ) :
    Option (StoredSnapshot τ) :=
  match life.req.mambaPoolIdx, life.req.reqPoolIdx with
  | some slot, some row =>
    let state := life.pool.cache slot
    if (validateStateTensors state.conv state.temporal none false).isValid then
      some
        { convStates := state.conv
          temporalStates := state.temporal
          metadata :=
            { conversationId, turnNumber, branchName
              timestamp := now
              tokenCount := life.req.fillIds.length
              modelName := server.modelPath
              mambaPoolIdx := slot
              reqPoolIdx := row
              layerConfig := [("num_layers", .number server.numMambaLayers),
                ("model_type", .text "hybrid")]
              fillIds := some life.req.fillIds } }
    else none
  | _, _ => none

/-- The turn number the two triggers pass: the number of generated tokens for a request
    in the batch, the length of `fill_ids` for one that has finished. -/
def Life.hookTurn (life : Life τ) : Int :=
  if life.req.finished then life.req.fillIds.length else life.req.outputIds.length

def postForwardSnapshot [DecidableEq τ] [Torch τ] (server : Server) (now : Nat) (wanted : Bool)
    (life : Life τ) : Option (StoredSnapshot τ) :=
  if wanted then
    storeLive server now (life.req.conversationId.getD life.req.rid) life.hookTurn none life
  else none

structure SaveReq where
  rid : String
  conversationId : Key := none
  turnNumber : Int
  branchName : Option String := none
deriving DecidableEq, Repr

def handleSaveSnapshot [DecidableEq τ] [Torch τ] (server : Server) (now : Nat) (recv : SaveReq)
    (life : Life τ) : Option (StoredSnapshot τ) :=
  storeLive server now ((Key.or recv.conversationId (some recv.rid)).getD "") recv.turnNumber
    recv.branchName life

section Stored

variable [DecidableEq τ] [Torch τ] {server : Server} {now : Nat} {life : Life τ}
  {saved : StoredSnapshot τ}

theorem storeLive_some {cid : String} {turn : Int} {branch : Option String}
    (stored : storeLive server now cid turn branch life = some saved) :
    (life.req.reqPoolIdx ≠ none ∧ saved.metadata.fillIds = some life.req.fillIds ∧
      saved.metadata.tokenCount = life.req.fillIds.length ∧
      ∀ slot ∈ life.req.mambaPoolIdx,
        life.pool.cache slot = ⟨saved.convStates, saved.temporalStates⟩) ∧
    saved.metadata.conversationId = cid ∧ saved.metadata.turnNumber = turn ∧
      saved.metadata.branchName = branch := by
  unfold storeLive at stored
  split at stored
  · next slot row named placed =>
    simp only at stored
    split at stored
    · cases stored
      refine ⟨⟨by simp [placed], rfl, rfl, ?_⟩, rfl, rfl, rfl⟩
      intro other same
      cases named.symm.trans same
      rfl
    · cases stored
  · cases stored

theorem postForwardSnapshot_some {wanted : Bool}
    (stored : postForwardSnapshot server now wanted life = some saved) :
    wanted = true ∧ storeLive server now (life.req.conversationId.getD life.req.rid)
      life.hookTurn none life = some saved := by
  unfold postForwardSnapshot at stored
  split at stored
  · next asked => exact ⟨asked, stored⟩
  · cases stored

end Stored

end Engram.Recording
