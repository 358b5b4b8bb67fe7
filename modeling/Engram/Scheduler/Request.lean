import Mathlib.Data.List.Basic

/-!
# Requests

The fields of `schedule_batch.Req` that restores, scheduling and snapshots read
or write, and the methods of `Req` that change them. Requests of sessions,
multimodal inputs and speculative decoding are not modelled.
-/

namespace Engram

/-- A Python value of type `Optional[str]`: a request id, a conversation id or a
    key of the pending-restore registry. -/
abbrev Key := Option String

/-- Python truth of such a value. -/
def Key.truthy : Key → Bool
  | some text => text ≠ ""
  | none => false

theorem Key.ne_none_of_truthy {key : Key} (truthy : key.truthy = true) : key ≠ none := by
  rintro rfl
  cases truthy

/-- `a or b` on optional strings. -/
def Key.or (a b : Key) : Key :=
  if a.truthy then a else b

namespace Scheduler

inductive FinishReason where
  | matched
  | length
  | abort (message : String)
deriving DecidableEq, Repr

/-- `mamba_ping_pong_track_buffer`: the slots for the states that the forward pass keeps for
    the tree, two with the overlap schedule, else one. -/
structure TrackBuffer where
  first : Nat
  second : Option Nat
deriving DecidableEq, Repr

namespace TrackBuffer

def slots (buffer : TrackBuffer) : List Nat :=
  buffer.first :: buffer.second.toList

/-- `get_mamba_ping_pong_other_idx` -/
def otherIdx (buffer : TrackBuffer) (nextTrackIdx : Nat) : Nat :=
  if buffer.second.isSome then 1 - nextTrackIdx else nextTrackIdx

/-- The slot at an index. -/
def get : TrackBuffer → Nat → Nat
  | ⟨first, none⟩, _ => first
  | ⟨first, some second⟩, idx => if idx = 0 then first else second

/-- The slots at the other indices. -/
def others : TrackBuffer → Nat → List Nat
  | ⟨_, none⟩, _ => []
  | ⟨first, some second⟩, idx => if idx = 0 then [second] else [first]

def set : TrackBuffer → Nat → Nat → TrackBuffer
  | ⟨_, none⟩, _, slot => ⟨slot, none⟩
  | ⟨first, some second⟩, idx, slot => if idx = 0 then ⟨slot, some second⟩ else ⟨first, some slot⟩

end TrackBuffer

structure Req where
  /-- identity of the Python object -/
  uid : Nat := 0
  rid : String
  conversationId : Key := none
  priority : Option Int := none
  originInputIds : List Nat
  outputIds : List Nat := []
  fillIds : List Nat := []
  /-- length of `prefix_indices` -/
  prefixLen : Nat := 0
  reqPoolIdx : Option Nat := none
  mambaPoolIdx : Option Nat := none
  mambaCowSrcIndex : Option Nat := none
  mambaNeedsClear : Bool := false
  mambaHasRestoredState : Bool := false
  /-- only on a server with `enable_mamba_extra_buffer`, and then while the request has a row -/
  mambaPingPongTrackBuffer : Option TrackBuffer := none
  /-- an index of the buffer; `None` as long as there is none -/
  mambaNextTrackIdx : Nat := 0
  mambaLastTrackSeqlen : Option Nat := none
  toFinish : Option FinishReason := none
  finishedReason : Option FinishReason := none
  finishedLen : Option Nat := none
  /-- `time_stats.wait_queue_entry_time`, `0` when never queued -/
  waitQueueEntryTime : Nat := 0
  /-- Mamba value of `last_node` while the request holds a lock on that node -/
  lockedSlot : Option Nat := none
  inflightMiddleChunks : Nat := 0
  statefulGenerate : Bool := false
deriving DecidableEq, Repr

namespace Req

def finished (req : Req) : Bool :=
  req.finishedReason.isSome

def outputIdsThroughStop (req : Req) : List Nat :=
  match req.finishedLen with
  | some finishedLen => req.outputIds.take finishedLen
  | none => req.outputIds

/-- The first assignment of `init_next_round_input`. -/
def resetFillIds (req : Req) : Req :=
  { req with fillIds := req.originInputIds ++ req.outputIds }

def setFinishWithAbort (req : Req) (errorMsg : String) : Req :=
  { req with originInputIds := [0], toFinish := some (.abort errorMsg) }

def resetForRetract (req : Req) : Req :=
  { req with
    prefixLen := 0
    mambaPoolIdx := none
    mambaPingPongTrackBuffer := none
    mambaNextTrackIdx := 0
    mambaLastTrackSeqlen := none
    mambaHasRestoredState := false
    mambaCowSrcIndex := none
    mambaNeedsClear := false
    inflightMiddleChunks := 0 }

end Req

end Scheduler

end Engram
