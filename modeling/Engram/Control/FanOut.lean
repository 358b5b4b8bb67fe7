import Engram.Lib.Transition
import Mathlib.Data.List.Perm.Basic

/-!
# Fan-out calls

`FanOutCommunicator` of `communicator.py` in its queueing mode, with the event loop around it. The
code of a call between two awaits is one step; a caller whose event has been set runs at some
later step. A request that was sent is answered once by each of its `fan_out` recipients, in any
order (`calls_serialized`).
-/

namespace Engram.Control

open Lib.Transition List

abbrev CallerId := Nat

/-- What a recipient sends back. -/
structure Reply (T : Type) where
  request : CallerId
  recipient : Nat
  value : T
deriving DecidableEq, Repr

/-- Where a call of `queueing_call` stands. -/
inductive Phase (T : Type) where
  | notCalled
  /-- waits for `ready_event` -/
  | queued (obj : Option T)
  /-- `ready_event` is set, and the call has not gone on yet -/
  | ready (obj : Option T)
  /-- waits for `_result_event` -/
  | awaiting (obj : Option T)
  /-- `_result_event` is set, and the call has not gone on yet -/
  | answered (obj : Option T)
  | returned (obj : Option T) (result : Option (List (Reply T)))
deriving DecidableEq, Repr

/-- The call has been told that it is its turn, and has not gone on yet. -/
def Phase.isReady {T : Type} : Phase T → Bool
  | .ready _ => true
  | _ => false

/-- The request of the call has been sent, and its result has not been taken yet. -/
@[simp, grind] def Phase.isInFlight {T : Type} : Phase T → Bool
  | .awaiting _ | .answered _ => true
  | _ => false

inductive Fault where
  /-- `assert self._result_event is None` -/
  | resultEventIsNotNone
  /-- `assert self._result_values is None` -/
  | resultValuesIsNotNone
  /-- an attribute of `None` is read in `handle_recv` -/
  | noneType
  /-- the event loop has no such step -/
  | notRunnable
deriving DecidableEq, Repr

/-- A communicator, its callers, and the answers that are still to come. -/
structure FanOut (T : Type) where
  resultEvent : Option CallerId := none
  resultValues : Option (List (Reply T)) := none
  readyQueue : List CallerId := []
  phase : CallerId → Phase T := fun _ => .notCalled
  /-- the calls that have been made -/
  calls : List CallerId := []
  /-- the recipients that have not answered a request yet -/
  pending : List (CallerId × Nat) := []

/-- A step of the event loop. -/
inductive Event (T : Type) where
  | call (caller : CallerId) (obj : Option T)
  /-- a caller whose event is set goes on -/
  | resume (caller : CallerId)
  | handleRecv (reply : Reply T)
deriving DecidableEq, Repr

namespace FanOut

variable {T : Type} (fanOut : Nat)

def setPhase (c : FanOut T) (caller : CallerId) (phase : Phase T) : FanOut T :=
  { c with phase := Function.update c.phase caller phase }

def sendPyobj (c : FanOut T) (caller : CallerId) : FanOut T :=
  { c with pending := c.pending ++ (List.range fanOut).map (caller, ·) }

def send (c : FanOut T) (caller : CallerId) (obj : Option T) : FanOut T :=
  let c := if obj.isSome then c.sendPyobj fanOut caller else c
  { c.setPhase caller (.awaiting obj) with
    resultEvent := some caller
    resultValues := some [] }

def queueingCall (c : FanOut T) (caller : CallerId) (obj : Option T) : FanOut T :=
  if c.resultEvent.isSome || 0 < c.readyQueue.length then
    { c.setPhase caller (.queued obj) with readyQueue := c.readyQueue ++ [caller] }
  else c.send fanOut caller obj

/-- `queueing_call` behind the wait for its turn. -/
def onReady (c : FanOut T) (caller : CallerId) (obj : Option T) : Except Fault (FanOut T) :=
  if c.resultEvent.isSome then .error .resultEventIsNotNone
  else if c.resultValues.isSome then .error .resultValuesIsNotNone
  else .ok (c.send fanOut caller obj)

def wake (c : FanOut T) (caller : CallerId) : FanOut T :=
  match c.phase caller with
  | .queued obj => c.setPhase caller (.ready obj)
  | _ => c

def onResult (c : FanOut T) (caller : CallerId) (obj : Option T) : FanOut T :=
  let c := { c.setPhase caller (.returned obj c.resultValues) with
    resultEvent := none
    resultValues := none }
  match c.readyQueue with
  | [] => c
  | next :: readyQueue => { c with readyQueue }.wake next

/-- `_result_event.set()`. -/
def setResultEvent (c : FanOut T) : Except Fault (FanOut T) :=
  match c.resultEvent with
  | none => .error .noneType
  | some caller =>
    match c.phase caller with
    | .awaiting obj => .ok (c.setPhase caller (.answered obj))
    | _ => .ok c

def handleRecv (c : FanOut T) (reply : Reply T) : Except Fault (FanOut T) :=
  match c.resultValues with
  | none => .error .noneType
  | some values =>
    let c := { c with resultValues := some (values ++ [reply]) }
    if (values ++ [reply]).length = fanOut then c.setResultEvent else .ok c

def step (c : FanOut T) : Event T → Except Fault (FanOut T)
  | .call caller obj =>
    if caller ∈ c.calls then .error .notRunnable
    else .ok ({ c with calls := caller :: c.calls }.queueingCall fanOut caller obj)
  | .resume caller =>
    match c.phase caller with
    | .ready obj => c.onReady fanOut caller obj
    | .answered obj => .ok (c.onResult caller obj)
    | _ => .error .notRunnable
  | .handleRecv reply =>
    if (reply.request, reply.recipient) ∈ c.pending then
      { c with pending := c.pending.erase (reply.request, reply.recipient) }.handleRecv fanOut reply
    else .error .notRunnable

/-! ### Runs -/

/-- The turn has been given to a caller that has not gone on yet. -/
def HandingOver (c : FanOut T) : Prop :=
  ∃ caller ∈ c.calls, (c.phase caller).isReady = true
deriving Decidable

/-- No call begins while the last one of the queue has been woken and has not gone on. -/
def Orderly (c : FanOut T) : Event T → Prop
  | .call _ _ => c.readyQueue = [] → ¬ c.HandingOver
  | _ => True

instance (c : FanOut T) : ∀ event, Decidable (c.Orderly event)
  | .call _ _ => inferInstanceAs (Decidable (_ → _))
  | .resume _ | .handleRecv _ => instDecidableTrue

/-- The request of the caller is in flight. -/
def InFlight (c : FanOut T) (caller : CallerId) : Prop :=
  ∃ obj, c.phase caller = .awaiting obj ∨ c.phase caller = .answered obj

/-- One reply from each recipient of the caller's own request. -/
def Own (caller : CallerId) (replies : List (Reply T)) : Prop :=
  (∀ reply ∈ replies, reply.request = caller) ∧
    (replies.map Reply.recipient).Perm (List.range fanOut)

/-! ### The invariant -/

inductive Turn (c : FanOut T) : Prop where
  | free (noEvent : c.resultEvent = none) (noValues : c.resultValues = none)
      (noneReady : ∀ caller obj, c.phase caller ≠ .ready obj)
      (noneInFlight : ∀ caller, ¬ c.InFlight caller) (queue : c.readyQueue = [])
      (answered : c.pending = [])
  | ready (caller : CallerId) (obj : Option T) (noEvent : c.resultEvent = none)
      (noValues : c.resultValues = none) (isReady : c.phase caller = .ready obj)
      (alone : ∀ other obj, c.phase other = .ready obj → other = caller)
      (noneInFlight : ∀ caller, ¬ c.InFlight caller) (answered : c.pending = [])
  | awaiting (caller : CallerId) (obj : Option T) (values : List (Reply T))
      (event : c.resultEvent = some caller) (isValues : c.resultValues = some values)
      (noneReady : ∀ caller obj, c.phase caller ≠ .ready obj)
      (isAwaiting : c.phase caller = .awaiting obj)
      (alone : ∀ other, c.InFlight other → other = caller)
      (own : ∀ reply ∈ values, reply.request = caller)
      (requests : ∀ pair ∈ c.pending, pair.1 = caller)
      (recipients : (values.map Reply.recipient ++ c.pending.map Prod.snd).Perm
        (if obj.isSome then List.range fanOut else []))
      (incomplete : values.length < fanOut)
  | answered (caller : CallerId) (obj : Option T) (values : List (Reply T))
      (event : c.resultEvent = some caller) (isValues : c.resultValues = some values)
      (noneReady : ∀ caller obj, c.phase caller ≠ .ready obj)
      (isAnswered : c.phase caller = .answered obj)
      (alone : ∀ other, c.InFlight other → other = caller)
      (complete : Own fanOut caller values) (answered : c.pending = [])

structure Records (c : FanOut T) : Prop where
  distinct : c.readyQueue.Nodup
  queue : ∀ caller, caller ∈ c.readyQueue ↔ ∃ obj, c.phase caller = .queued obj
  calls : ∀ caller, caller ∈ c.calls ↔ c.phase caller ≠ .notCalled
  returned : ∀ caller obj result, c.phase caller = .returned obj result →
    ∃ replies, result = some replies ∧ Own fanOut caller replies

structure Inv (c : FanOut T) : Prop where
  turn : Turn fanOut c
  records : Records fanOut c

variable {fanOut : Nat} {c c' : FanOut T} {caller other : CallerId} {obj : Option T}

/-! ### What the parts of a call change -/

@[simp, grind =] theorem inFlight_iff : c.InFlight caller ↔ (c.phase caller).isInFlight = true := by
  rw [InFlight]
  cases c.phase caller <;> simp

section Fields

variable (c : FanOut T) (caller other : CallerId) (phase : Phase T) (obj : Option T)

@[simp, grind =] theorem setPhase_phase :
    (c.setPhase caller phase).phase other = if other = caller then phase else c.phase other :=
  Function.update_apply ..

@[simp, grind =] theorem setPhase_readyQueue :
    (c.setPhase caller phase).readyQueue = c.readyQueue := rfl
@[simp, grind =] theorem setPhase_calls : (c.setPhase caller phase).calls = c.calls := rfl
@[simp, grind =] theorem setPhase_pending : (c.setPhase caller phase).pending = c.pending := rfl

@[simp, grind =] theorem send_phase :
    (c.send fanOut caller obj).phase other =
      if other = caller then .awaiting obj else c.phase other := by
  unfold send
  split <;> simp [sendPyobj]

@[simp, grind =] theorem send_readyQueue :
    (c.send fanOut caller obj).readyQueue = c.readyQueue := by
  unfold send
  split <;> rfl

@[simp, grind =] theorem send_calls : (c.send fanOut caller obj).calls = c.calls := by
  unfold send
  split <;> rfl

@[simp] theorem send_pending : (c.send fanOut caller obj).pending =
    c.pending ++ (if obj.isSome then List.range fanOut else []).map (caller, ·) := by
  unfold send
  split <;> simp [sendPyobj]

end Fields

theorem send_turn (positive : 0 < fanOut) (noneInFlight : ∀ other, ¬ c.InFlight other)
    (alone : ∀ other obj, c.phase other = .ready obj → other = caller) (nothing : c.pending = []) :
    Turn fanOut (c.send fanOut caller obj) := by
  simp only [inFlight_iff] at noneInFlight
  refine .awaiting caller obj [] rfl rfl ?_ (by simp) ?_ (by simp) ?_ ?_ positive
  · grind
  · grind
  · intro pair
    simp only [send_pending]
    grind
  · simp [nothing, Function.comp_def]

theorem Turn.enqueue (turn : Turn fanOut c) (notCalled : c.phase caller = .notCalled)
    (busy : c.resultEvent.isSome = true ∨ c.readyQueue ≠ []) (queue calls : List CallerId) :
    Turn fanOut { c.setPhase caller (.queued obj) with readyQueue := queue, calls } := by
  cases turn with
  | free noEvent _ _ _ empty => grind
  | ready first obj' noEvent noValues isReady alone noneInFlight answered =>
    simp only [inFlight_iff] at noneInFlight
    exact .ready first obj' noEvent noValues (by grind) (by grind) (by grind) answered
  | awaiting first obj' values event isValues noneReady isAwaiting alone own requests recipients
      incomplete =>
    simp only [inFlight_iff] at alone
    exact .awaiting first obj' values event isValues (by grind) (by grind) (by grind) own
      requests recipients incomplete
  | answered first obj' values event isValues noneReady isAnswered alone complete answered =>
    simp only [inFlight_iff] at alone
    exact .answered first obj' values event isValues (by grind) (by grind) (by grind)
      complete answered

/-! ### The records of the callers -/

namespace Records

section

variable (records : Records fanOut c)

include records

theorem notCalled (fresh : caller ∉ c.calls) :
    c.phase caller = .notCalled := by
  by_contra called
  exact fresh ((records.calls caller).mpr called)

theorem move {phase : Phase T} (queue : c'.readyQueue = c.readyQueue)
    (phases : ∀ other, c'.phase other = if other = caller then phase else c.phase other)
    (calls : ∀ other, other ∈ c'.calls ↔ other = caller ∨ other ∈ c.calls)
    (wasNotQueued : ∀ obj, c.phase caller ≠ .queued obj) (notQueued : ∀ obj, phase ≠ .queued obj)
    (called : phase ≠ .notCalled) (result : ∀ obj result, phase = .returned obj result →
      ∃ replies, result = some replies ∧ Own fanOut caller replies) : Records fanOut c' := by
  obtain ⟨distinct, queued, called, returned⟩ := records
  constructor <;> grind

theorem send {calls : List CallerId}
    (isCall : ∀ other, other ∈ calls ↔ other = caller ∨ other ∈ c.calls)
    (wasNotQueued : ∀ obj, c.phase caller ≠ .queued obj) (obj : Option T) :
    Records fanOut ({ c with calls }.send fanOut caller obj) :=
  records.move (send_readyQueue ..) (fun _ => send_phase ..) (by simpa using isCall)
    wasNotQueued (by simp) (by simp) (by simp)

theorem enqueue (fresh : caller ∉ c.calls) (obj : Option T) :
    Records fanOut { c.setPhase caller (.queued obj) with
      readyQueue := c.readyQueue ++ [caller]
      calls := caller :: c.calls } := by
  obtain ⟨distinct, queued, called, returned⟩ := records
  have notQueued : caller ∉ c.readyQueue := by grind
  constructor
  · exact (perm_append_singleton ..).nodup_iff.mpr (nodup_cons.mpr ⟨notQueued, distinct⟩)
  · intro other
    have := queued other
    by_cases isCaller : other = caller <;> simp [isCaller, this]
  · grind
  · grind

theorem wake {queue : List CallerId}
    (isQueue : c.readyQueue = caller :: queue) (isQueued : c.phase caller = .queued obj) :
    Records fanOut { c.setPhase caller (.ready obj) with readyQueue := queue } := by
  obtain ⟨distinct, queued, called, returned⟩ := records
  constructor <;> grind

end

end Records

/-! ### Steps -/

theorem call_inv (positive : 0 < fanOut) (inv : Inv fanOut c) (fresh : caller ∉ c.calls)
    (orderly : c.readyQueue = [] → ¬ c.HandingOver) :
    Inv fanOut ({ c with calls := caller :: c.calls }.queueingCall fanOut caller obj) := by
  have notCalled := inv.records.notCalled fresh
  unfold queueingCall
  split
  · next busy =>
    have busy' : c.resultEvent.isSome = true ∨ c.readyQueue ≠ [] := by
      simpa [length_pos_iff] using busy
    exact ⟨inv.turn.enqueue notCalled busy' _ _, inv.records.enqueue fresh obj⟩
  · next idle =>
    obtain ⟨noEvent, empty⟩ : c.resultEvent = none ∧ c.readyQueue = [] := by
      simpa using idle
    constructor
    · -- nobody has been woken, so it is nobody's turn
      cases inv.turn with
      | free _ _ noneReady noneInFlight _ answered =>
        exact send_turn positive noneInFlight
          (fun other obj isReady => absurd isReady (noneReady other obj)) answered
      | ready first obj' _ _ isReady =>
        refine absurd ⟨first, ?_, ?_⟩ (orderly empty)
        · simp [inv.records.calls, isReady]
        · simp [isReady, Phase.isReady]
      | awaiting _ _ _ event =>
        rw [noEvent] at event
        cases event
      | answered _ _ _ event =>
        rw [noEvent] at event
        cases event
    · exact inv.records.send (fun other => mem_cons) (by simp [notCalled]) obj

/-- The caller whose turn it is finds the way free, and sends its request. -/
theorem onReady_inv (positive : 0 < fanOut) (inv : Inv fanOut c)
    (isReady : c.phase caller = .ready obj) :
    ∃ c', c.onReady fanOut caller obj = .ok c' ∧ Inv fanOut c' := by
  cases inv.turn with
  | ready first obj' noEvent noValues isFirst alone noneInFlight answered =>
    have same := alone caller obj isReady
    subst same
    refine ⟨c.send fanOut caller obj, ?_, ?_, ?_⟩
    · rw [onReady, noEvent, noValues]
      rfl
    · exact send_turn positive noneInFlight alone answered
    · have := inv.records.calls caller
      exact inv.records.send (by grind) (by simp [isReady]) obj
  | free _ _ noneReady => exact absurd isReady (noneReady caller obj)
  | awaiting _ _ _ _ _ noneReady => exact absurd isReady (noneReady caller obj)
  | answered _ _ _ _ _ noneReady => exact absurd isReady (noneReady caller obj)

/-- A caller takes its result, and the first one of the queue has the next turn. -/
theorem onResult_inv (inv : Inv fanOut c) (isAnswered : c.phase caller = .answered obj) :
    Inv fanOut (c.onResult caller obj) := by
  cases inv.turn with
  | answered first obj' values event isValues noneReady isFirst alone complete answered =>
    have same := alone caller ⟨obj, .inr isAnswered⟩
    subst same
    -- the state once the result is taken
    generalize isTaken : ({ c.setPhase caller (.returned obj c.resultValues) with
      resultEvent := none
      resultValues := none } : FanOut T) = taken
    have phases : ∀ other, taken.phase other =
        if other = caller then .returned obj c.resultValues else c.phase other :=
      fun other => isTaken ▸ setPhase_phase ..
    have queues : taken.readyQueue = c.readyQueue := by grind
    have nothing : taken.pending = [] := by grind
    have noEvent : taken.resultEvent = none := by grind
    have noValues : taken.resultValues = none := by grind
    have records : Records fanOut taken := by
      refine inv.records.move queues phases ?_ (by simp [isAnswered]) (by simp) (by simp) ?_
      · have := inv.records.calls caller
        grind
      · intro obj' result isReturned
        cases isReturned
        exact ⟨values, isValues, complete⟩
    have noneReady' : ∀ other obj', taken.phase other ≠ .ready obj' := by grind
    have noneInFlight : ∀ other, (taken.phase other).isInFlight ≠ true := by
      simp only [inFlight_iff] at alone
      grind
    have split : c.onResult caller obj =
        match taken.readyQueue with
        | [] => taken
        | next :: readyQueue => { taken with readyQueue }.wake next := by
      rw [← isTaken]
      rfl
    rw [split]
    cases queue : taken.readyQueue with
    | nil => exact ⟨.free noEvent noValues noneReady' (by simpa using noneInFlight) queue nothing,
      records⟩
    | cons next rest =>
      obtain ⟨obj', isQueued⟩ := (records.queue next).mp (queue ▸ mem_cons_self)
      have woken : ({ taken with readyQueue := rest } : FanOut T).wake next =
          { taken.setPhase next (.ready obj') with readyQueue := rest } := by
        rw [wake]
        simp only [isQueued]
        rfl
      dsimp only
      rw [woken]
      exact ⟨.ready next obj' noEvent noValues (by simp) (by grind) (by grind) nothing,
        records.wake queue isQueued⟩
  | free _ _ _ noneInFlight => exact absurd ⟨obj, .inr isAnswered⟩ (noneInFlight caller)
  | ready _ _ _ _ _ _ noneInFlight => exact absurd ⟨obj, .inr isAnswered⟩ (noneInFlight caller)
  | awaiting first _ _ _ _ _ isAwaiting alone =>
    have same := alone caller ⟨obj, .inr isAnswered⟩
    rw [← same, isAnswered] at isAwaiting
    cases isAwaiting

/-- A reply is added to the replies of the caller whose request it answers. -/
theorem handleRecv_inv (inv : Inv fanOut c) {reply : Reply T}
    (isPending : (reply.request, reply.recipient) ∈ c.pending) :
    ∃ c', { c with pending := c.pending.erase (reply.request, reply.recipient) }.handleRecv
      fanOut reply = .ok c' ∧ Inv fanOut c' := by
  cases inv.turn with
  | awaiting first obj values event isValues noneReady isAwaiting alone own requests recipients
      incomplete =>
    have isFirst : reply.request = first := requests _ isPending
    -- a request was sent, since a reply to it is pending
    have sent : obj.isSome = true := by
      by_contra notSent
      have lengths := recipients.length_eq
      rw [if_neg notSent, length_append, length_map, length_map, length_nil] at lengths
      have some := length_pos_of_mem isPending
      omega
    rw [if_pos sent] at recipients
    have own' : ∀ given ∈ values ++ [reply], given.request = first := by
      intro given member
      rcases mem_append.mp member with old | new
      · exact own given old
      · rw [mem_singleton.mp new, isFirst]
    have recipients' : ((values ++ [reply]).map Reply.recipient ++
        (c.pending.erase (reply.request, reply.recipient)).map Prod.snd).Perm
          (range fanOut) := by
      refine List.Perm.trans ?_ recipients
      rw [map_append, append_assoc]
      refine List.Perm.append_left _ ?_
      exact ((perm_cons_erase isPending).map Prod.snd).symm
    have requests' : ∀ pair ∈ c.pending.erase (reply.request, reply.recipient), pair.1 = first :=
      fun pair member => requests pair (mem_of_mem_erase member)
    simp only [handleRecv, isValues]
    split
    · next full =>
      -- the last reply sets the event of the caller
      have nothing : c.pending.erase (reply.request, reply.recipient) = [] := by
        have lengths := recipients'.length_eq
        rw [length_append, length_map, length_map, length_range] at lengths
        exact eq_nil_of_length_eq_zero (by omega)
      rw [nothing, map_nil, append_nil] at recipients'
      simp only [setResultEvent, event, isAwaiting, nothing]
      refine ⟨_, rfl, ?_, ?_⟩
      · simp only [inFlight_iff] at alone
        exact .answered first obj _ rfl rfl (by grind) (by simp) (by grind) ⟨own', recipients'⟩ rfl
      · refine inv.records.move rfl (setPhase_phase _ first · _) ?_ (by simp [isAwaiting]) (by simp)
          (by simp) (by simp)
        have := inv.records.calls first
        grind
    · next notFull =>
      refine ⟨_, rfl, ?_, ?_⟩
      · refine .awaiting first obj _ event rfl noneReady isAwaiting alone own' requests' ?_ ?_
        · rw [if_pos sent]
          exact recipients'
        · rw [length_append, length_singleton] at notFull ⊢
          omega
      · exact ⟨inv.records.distinct, inv.records.queue, inv.records.calls, inv.records.returned⟩
  | free _ _ _ _ _ answered =>
    rw [answered] at isPending
    cases isPending
  | ready _ _ _ _ _ _ _ answered =>
    rw [answered] at isPending
    cases isPending
  | answered _ _ _ _ _ _ _ _ _ answered =>
    rw [answered] at isPending
    cases isPending

theorem step_inv (positive : 0 < fanOut) (inv : Inv fanOut c) (event : Event T)
    (orderly : c.Orderly event) :
    c.step fanOut event = .error .notRunnable ∨
      ∃ c', c.step fanOut event = .ok c' ∧ Inv fanOut c' := by
  cases event with
  | call caller obj =>
    rw [step]
    by_cases again : caller ∈ c.calls
    · exact .inl (if_pos again)
    · exact .inr ⟨_, if_neg again, call_inv positive inv again orderly⟩
  | resume caller =>
    rw [step]
    cases phase : c.phase caller with
    | ready obj => exact .inr (onReady_inv positive inv phase)
    | answered obj => exact .inr ⟨_, rfl, onResult_inv inv phase⟩
    | notCalled => exact .inl rfl
    | queued obj => exact .inl rfl
    | awaiting obj => exact .inl rfl
    | returned obj result => exact .inl rfl
  | handleRecv reply =>
    rw [step]
    by_cases isPending : (reply.request, reply.recipient) ∈ c.pending
    · rw [if_pos isPending]
      exact .inr (handleRecv_inv inv isPending)
    · exact .inl (if_neg isPending)

theorem init_inv : Inv fanOut ({} : FanOut T) where
  turn := .free rfl rfl (by simp) (by simp) rfl rfl
  records := by
    constructor <;> simp

theorem Inv.at_most_one (inv : Inv fanOut c) {first second : CallerId}
    (flies : c.InFlight first) (fliesToo : c.InFlight second) : first = second := by
  cases inv.turn with
  | free _ _ _ noneInFlight => exact absurd flies (noneInFlight first)
  | ready _ _ _ _ _ _ noneInFlight => exact absurd flies (noneInFlight first)
  | awaiting _ _ _ _ _ _ _ alone => exact (alone first flies).trans (alone second fliesToo).symm
  | answered _ _ _ _ _ _ _ alone => exact (alone first flies).trans (alone second fliesToo).symm

/-- While a call has not returned, a caller can go on or a reply is to come, unless the call
    whose turn it is has nothing to send. -/
theorem Inv.progress (inv : Inv fanOut c) (called : caller ∈ c.calls)
    (notReturned : ∀ obj result, c.phase caller ≠ .returned obj result) :
    (∃ other obj, c.phase other = .ready obj ∨ c.phase other = .answered obj) ∨ c.pending ≠ [] ∨
      ∃ other, c.phase other = .awaiting none := by
  cases inv.turn with
  | free _ _ noneReady noneInFlight empty _ =>
    cases phase : c.phase caller with
    | notCalled => exact absurd phase ((inv.records.calls caller).mp called)
    | queued obj =>
      have inQueue := (inv.records.queue caller).mpr ⟨obj, phase⟩
      rw [empty] at inQueue
      cases inQueue
    | ready obj => exact absurd phase (noneReady caller obj)
    | awaiting obj => exact absurd ⟨obj, .inl phase⟩ (noneInFlight caller)
    | answered obj => exact absurd ⟨obj, .inr phase⟩ (noneInFlight caller)
    | returned obj result => exact absurd phase (notReturned obj result)
  | ready first obj _ _ isReady => exact .inl ⟨first, obj, .inl isReady⟩
  | awaiting first obj values _ _ _ isAwaiting _ _ _ recipients incomplete =>
    cases obj with
    | none => exact .inr (.inr ⟨first, isAwaiting⟩)
    | some obj =>
      refine .inr (.inl fun nothing => ?_)
      have lengths := recipients.length_eq
      rw [nothing, map_nil, append_nil, length_map, Option.isSome_some, if_pos rfl,
        length_range] at lengths
      omega
  | answered first obj _ _ _ _ isAnswered => exact .inl ⟨first, obj, .inr isAnswered⟩

/-- In every run in which no call begins between the waking of the last caller of the queue and
    its next step: no assertion fails, at most one request is in flight, every call that has
    returned has the `fan_out` replies to its own request, and as long as one has not, the event
    loop has a step to make. -/
theorem calls_serialized (fanOut : Nat) (positive : 0 < fanOut) (events : List (Event T))
    (orderly : Admissible (step fanOut) Orderly ({} : FanOut T) events) :
    (∀ fault, run (step fanOut) ({} : FanOut T) events = .error fault → fault = .notRunnable) ∧
      ∀ c, run (step fanOut) ({} : FanOut T) events = .ok c →
        (∀ first second, c.InFlight first → c.InFlight second → first = second) ∧
        (∀ caller obj result, c.phase caller = .returned obj result →
          ∃ replies, result = some replies ∧ Own fanOut caller replies) ∧
        ∀ caller ∈ c.calls, (∀ obj result, c.phase caller ≠ .returned obj result) →
          (∃ other obj, c.phase other = .ready obj ∨ c.phase other = .answered obj) ∨
            c.pending ≠ [] ∨ ∃ other, c.phase other = .awaiting none := by
  have preserved : ∀ (c : FanOut T) (event : Event T) (c' : FanOut T), Inv fanOut c →
      c.Orderly event → c.step fanOut event = .ok c' → Inv fanOut c' := by
    intro c event c' inv orderly stepped
    rcases step_inv positive inv event orderly with stops | ⟨next, stepped', inv'⟩
    · rw [stops] at stepped
      cases stepped
    · rw [stepped'] at stepped
      cases stepped
      exact inv'
  constructor
  · intro fault faulted
    by_contra other
    refine run_never_faults preserved (fun c event inv orderly stepped => ?_) events _ init_inv
      orderly faulted
    rcases step_inv positive inv event orderly with stops | ⟨next, stepped', -⟩
    · rw [stops] at stepped
      cases stepped
      exact other rfl
    · rw [stepped'] at stepped
      cases stepped
  · intro c reached
    have inv := run_invariant preserved events _ c init_inv orderly reached
    exact ⟨fun _ _ => inv.at_most_one, inv.records.returned, fun _ => inv.progress⟩

/-- The second call waits for the first one, and a third one waits for both. -/
def threeCalls : List (Event Nat) :=
  [.call 1 (some 10), .call 2 (some 20), .call 3 (some 30), .handleRecv ⟨1, 1, 12⟩,
    .handleRecv ⟨1, 0, 11⟩, .resume 1, .resume 2, .handleRecv ⟨2, 0, 21⟩, .handleRecv ⟨2, 1, 22⟩,
    .resume 2]

theorem calls_serialized_threeCalls :
    ∃ c, run (step 2) ({} : FanOut Nat) threeCalls = .ok c ∧
      c.phase 2 = .returned (some 20) (some [⟨2, 0, 21⟩, ⟨2, 1, 22⟩]) ∧
      Own 2 2 [(⟨2, 0, 21⟩ : Reply Nat), ⟨2, 1, 22⟩] := by
  obtain ⟨c, reached, isReturned⟩ : ∃ c, run (step 2) ({} : FanOut Nat) threeCalls = .ok c ∧
      c.phase 2 = .returned (some 20) (some [⟨2, 0, 21⟩, ⟨2, 1, 22⟩]) := by decide +kernel
  obtain ⟨replies, same, own⟩ := ((calls_serialized 2 (by decide) threeCalls
    (by decide +kernel)).2 c reached).2.1 2 _ _ isReturned
  cases same
  exact ⟨c, reached, isReturned, own⟩

/-- The third call begins after the first one has woken the second, and before the second has
    gone on. -/
theorem call_between_handover :
    run (step 1) ({} : FanOut Nat) [.call 1 (some 10), .call 2 (some 20), .handleRecv ⟨1, 0, 11⟩,
      .resume 1, .call 3 (some 30), .resume 2] = .error .resultEventIsNotNone :=
  eq_error_of_faultOf (by decide +kernel)

end FanOut

end Engram.Control
