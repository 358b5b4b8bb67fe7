import Engram.Scheduler.Ownership
import Engram.Scheduler.Step

/-!
# Every step accounts for every slot

Each function of the scheduler loop is a transfer of slots and rows between the
memory and the requests it works on, in the sense of `Moves`. Requests that were
let go without a release stay in the account as dropped ones.
-/

namespace Engram.Scheduler

open Engram.Lib Engram.Lib.Transition Engram.Memory Engram.Restore Engram.Snapshot List

variable {τ : Type} {req req' : Req} {cache : TreeCache} {mem mem' : Memory τ}
  {reqs queue : List Req} {cfg : Config} {s s' : State τ}

def State.accounted (s : State τ) : List Req :=
  s.requests ++ s.dropped

def Req.Queued (req : Req) : Prop :=
  req.finishedReason = none ∧ req.reqPoolIdx = none ∧ req.mambaPingPongTrackBuffer = none

structure Req.Placed (req : Req) : Prop where
  row : req.reqPoolIdx.isSome = req.finishedReason.isNone
  slot : req.finishedReason = none → req.mambaPoolIdx.isSome = true

structure Req.SameMemory (req req' : Req) : Prop where
  slot : req'.mambaPoolIdx = req.mambaPoolIdx
  buffer : req'.mambaPingPongTrackBuffer = req.mambaPingPongTrackBuffer
  reason : req'.finishedReason = req.finishedReason
  row : req'.reqPoolIdx = req.reqPoolIdx
  uid : req'.uid = req.uid

theorem Req.SameMemory.moves (same : req.SameMemory req') (mem : Memory τ) :
    Moves cache mem [req] mem [req'] :=
  moves_relabel mem same.slot same.buffer same.reason same.row

theorem Req.SameMemory.queued (same : req.SameMemory req') (queued : req.Queued) :
    req'.Queued :=
  ⟨same.reason.trans queued.1, same.row.trans queued.2.1, same.buffer.trans queued.2.2⟩

theorem Req.SameMemory.placed (same : req.SameMemory req') (placed : req.Placed) :
    req'.Placed := by
  constructor
  · rw [same.row, same.reason]
    exact placed.row
  · rw [same.slot, same.reason]
    exact placed.slot

theorem Moves.cons (moves : Moves cache mem [req] mem' [req']) (reqs : List Req) :
    Moves cache mem (req :: reqs) mem' (req' :: reqs) :=
  moves.beside reqs

theorem Moves.within {reqs' : List Req} (moves : Moves cache mem reqs mem' reqs')
    (left right : List Req) :
    Moves cache mem (left ++ reqs ++ right) mem' (left ++ reqs' ++ right) := by
  have turn : ∀ middle : List Req, (middle ++ (left ++ right)).Perm (left ++ middle ++ right) := by
    intro middle
    simp only [perm_iff_count, count_append]
    intro other
    omega
  exact (moves.beside (left ++ right)).perm (turn reqs) (turn reqs')

theorem moves_map (cache : TreeCache) {f : Req → Req} (same : ∀ req : Req, req.SameMemory (f req))
    (mem : Memory τ) (reqs : List Req) : Moves cache mem reqs mem (reqs.map f) := by
  induction reqs with
  | nil => exact .refl mem []
  | cons req reqs ih =>
    have head : Moves cache mem (req :: reqs) mem (f req :: reqs) :=
      ((same req).moves mem).cons reqs
    have tail : Moves cache mem (reqs ++ [f req]) mem (reqs.map f ++ [f req]) := ih.beside [f req]
    exact head.trans (tail.perm (perm_append_singleton _ _)
      (perm_append_singleton _ _))

/-- A request without slots and without a row. -/
def Req.EmptyHanded (req : Req) : Prop :=
  req.slots = [] ∧ req.reqPoolIdx = none

theorem Req.Queued.emptyHanded (queued : req.Queued) (slot : req.mambaPoolIdx = none) :
    req.EmptyHanded :=
  ⟨req.slots_of_none slot queued.2.2, queued.2.1⟩

theorem Req.Placed.emptyHanded (placed : req.Placed) (finished : req.finished = true) :
    req.EmptyHanded :=
  ⟨Req.slots_of_finished finished, by simpa [Option.isNone_eq_false_iff.mpr finished] using
    placed.row⟩

theorem Req.fits_of_none (buffer : req.mambaPingPongTrackBuffer = none) : req.Fits cache := by
  simp [Req.Fits, buffer]

theorem Req.Queued.moves_enter (queued : req.Queued) (slot : req.mambaPoolIdx = none)
    (mem : Memory τ) (reqs : List Req) : Moves cache mem reqs mem (req :: reqs) where
  slots := by
    refine ⟨fun slot => ?_, fun _ _ => rfl⟩
    simp only [holding]
    rw [ownersAmong_cons, ownersAmong_singleton, (queued.emptyHanded ‹_›).1, count_nil,
      Nat.zero_add]
  rows := by
    simp [rowsHeld, queued.2.1]
  size := rfl
  tree := fun _ => id
  buffers := fun fit => forall_mem_cons.mpr ⟨Req.fits_of_none queued.2.2, fit⟩

theorem Moves.forget {reqs' gone : List Req} (moves : Moves cache mem reqs mem' (reqs' ++ gone))
    (empty : ∀ req ∈ gone, req.EmptyHanded) :
    Moves cache mem reqs mem' reqs' := by
  have owners := ownersAmong_eq_zero (fun req member => (empty req member).1)
  have rows : rowsHeld gone = 0 := by
    apply countP_eq_zero.mpr
    intro req member
    simp [(empty req member).2]
  refine ⟨⟨?_, moves.slots.frame⟩, ?_, moves.size, moves.tree,
    fun fit => (forall_mem_append.mp (moves.buffers fit)).1⟩
  · intro slot
    have same := moves.slots.count slot
    simp only [holding, ownersAmong_append, owners slot] at same ⊢
    exact same
  · have same := moves.rows
    rw [rowsHeld_append, rows] at same
    exact same

/-! ### The waiting queue -/

theorem popLeastPreferred_perm {others : List Req} {candidate : Req}
    (popped : popLeastPreferred cfg queue = some (candidate, others)) :
    queue.Perm (candidate :: others) := by
  induction queue generalizing candidate others with
  | nil => cases popped
  | cons req rest ih =>
    unfold popLeastPreferred at popped
    split at popped
    · next nothing =>
      cases popped
      cases rest with
      | nil => exact .refl _
      | cons next rest =>
        unfold popLeastPreferred at nothing
        split at nothing
        · cases nothing
        · split at nothing <;> cases nothing
    · next best remaining found =>
      split at popped
      · cases popped
        exact ((ih found).cons req).trans (.swap _ _ _)
      · cases popped
        exact .refl _

/-- What `_add_request_to_queue` does: the request joins the account, in the queue or
    among the dropped ones. -/
structure Enqueued (s : State τ) (req : Req) (s' : State τ) : Prop where
  mem : s'.mem = s.mem
  pending : s'.pending = s.pending
  lastBatch : s'.lastBatch = s.lastBatch
  runningBatch : s'.runningBatch = s.runningBatch
  chunkedReq : s'.chunkedReq = s.chunkedReq
  nextUid : s'.nextUid = s.nextUid
  joined : ∃ priority time,
    let req' := { req with priority := priority, waitQueueEntryTime := time }
    s'.accounted.Perm (req' :: s.accounted) ∧
      ∀ queued ∈ s'.waitingQueue, queued = req' ∨ queued ∈ s.waitingQueue

theorem setOrValidatePriority_eq_some (valid : setOrValidatePriority cfg req = some req') :
    ∃ priority, req' = { req with priority := priority } := by
  unfold setOrValidatePriority at valid
  split at valid
  · cases valid
    exact ⟨_, rfl⟩
  split at valid
  · cases valid
  · cases valid
    exact ⟨req.priority, rfl⟩

variable {P : Fault → Prop} (tolerates : Tolerates P)

/-- The request joins the queue or is dropped; so may be requests of the queue. -/
theorem enqueued_of_perm {priority : Option Int} {time : Nat} {joined : Req}
    (same : joined = { req with priority := priority, waitQueueEntryTime := time })
    {dropped : List Req} {outbox : List AbortNotice}
    (perm : (queue ++ dropped).Perm (joined :: (s.waitingQueue ++ s.dropped)))
    (old : ∀ queued ∈ queue, queued = joined ∨ queued ∈ s.waitingQueue) :
    Enqueued s req { s with waitingQueue := queue, dropped, outbox } := by
  refine ⟨rfl, rfl, rfl, rfl, rfl, rfl, priority, time, ?_⟩
  rw [← same]
  refine ⟨?_, old⟩
  have counts := perm_iff_count.mp perm
  simp only [State.accounted, State.requests, State.inFlight, perm_iff_count,
    count_append, count_cons] at counts ⊢
  intro other
  have here := counts other
  omega

include tolerates in
theorem addRequestToQueue_enqueued (cfg : Config) (s : State τ) (req : Req) :
    Ends P (Enqueued s req) (addRequestToQueue cfg s req) := by
  have turnedAway : ∀ (queue dropped : List Req) (req : Req),
      (queue ++ (dropped ++ [req])).Perm (req :: (queue ++ dropped)) := by grind
  have joins : ∀ (queue dropped : List Req) (req : Req),
      (queue ++ [req] ++ dropped).Perm (req :: (queue ++ dropped)) := by grind
  unfold addRequestToQueue
  split
  · exact enqueued_of_perm (rfl : req = _) (turnedAway ..) fun _ => .inr
  next valid req' checked =>
  obtain ⟨priority, rfl⟩ := setOrValidatePriority_eq_some checked
  unfold abortOnQueuedLimit
  split
  · exact enqueued_of_perm rfl (joins ..) (by simp [or_comm])
  split
  · exact enqueued_of_perm rfl (turnedAway ..) fun _ => .inr
  split
  · exact tolerates.emptyWaitingQueue
  next candidate others popped =>
  -- the queue is full: the least preferred request makes room, if it is preferred less
  have perm := popLeastPreferred_perm popped
  have evicted : (others ++ (s.dropped ++ [candidate])).Perm (s.waitingQueue ++ s.dropped) :=
    (turnedAway others s.dropped candidate).trans (perm.symm.append_right s.dropped)
  have stay : others ⊆ s.waitingQueue :=
    fun queued member => perm.mem_iff.mpr (mem_cons_of_mem _ member)
  split
  · change Ends P _ (if candidate.rid == req.rid then _ else _)
    split
    · exact enqueued_of_perm rfl ((turnedAway ..).trans (evicted.cons _)) fun _ => .inr ∘ @stay _
    · refine enqueued_of_perm rfl ((joins ..).trans (evicted.cons _)) ?_
      intro queued member
      exact (mem_append.mp member).symm.imp mem_singleton.mp (@stay _)
  · exact enqueued_of_perm rfl (turnedAway ..) fun _ => .inr

/-! ### The request handlers -/

/-- Every slot of the pool has exactly one owner, and no other number is a slot. -/
def State.Conserved (s : State τ) : Prop :=
  ∀ slot, s.mem.count slot + ownersAmong s.accounted slot =
    if 1 ≤ slot ∧ slot ≤ s.mem.pool.size then 1 else 0

/-- What is true of the requests of a scheduler between its events. -/
structure State.Sound (s : State τ) : Prop where
  waiting : ∀ req ∈ s.waitingQueue, req.Queued
  placed : ∀ req ∈ s.lastBatch ++ s.runningBatch, req.Placed
  chunked : ∀ req, s.chunkedReq = some req → req.finishedReason = none ∧ req.Placed

/-- A step of the scheduler accounts for the slots and rows and keeps the requests
    where they belong. -/
structure Accounts (cfg : Config) (s s' : State τ) : Prop where
  moves : Moves cfg.cache s.mem s.accounted s'.mem s'.accounted
  uids : s.nextUid ≤ s'.nextUid
  sound : s'.Sound

theorem Accounts.conserved (accounts : Accounts cfg s s') (before : s.Conserved) :
    s'.Conserved := by
  intro slot
  have same := accounts.moves.slots.count slot
  have one := before slot
  simp only [holding] at same
  rw [same, one, accounts.moves.size]

theorem Accounts.trans {s'' : State τ} (first : Accounts cfg s s') (second : Accounts cfg s' s'') :
    Accounts cfg s s'' :=
  ⟨first.moves.trans second.moves, Nat.le_trans first.uids second.uids, second.sound⟩

structure Memory.TakesWriting (mem : Memory τ) (slot : Nat) (mem' : Memory τ) : Prop where
  count : ∀ other, mem'.count other + [slot].count other = mem.count other
  others : ∀ other, other ≠ slot → mem'.pool.cache other = mem.pool.cache other
  rows : mem'.freeRows = mem.freeRows
  size : mem'.pool.size = mem.pool.size
  tree : mem'.tree = mem.tree

namespace Memory.TakesWriting

variable {mem mem' : Memory τ} {slot : Nat}

theorem of_inject {taken : Memory τ} {pool : MambaPool τ}
    (allocated : mem.allocSlot = some (slot, taken)) (written : taken.pool.AgreesOff slot pool) :
    mem.TakesWriting slot { taken with pool } where
  count := by
    intro other
    have counted := (Memory.allocSlot_takes allocated).count other
    simp only [Memory.count, written.freeSlots] at counted ⊢
    exact counted
  others := fun other different =>
    (written.others other different).trans (congrFun (Memory.allocSlot_takes allocated).cache other)
  rows := (Memory.allocSlot_takes allocated).rows
  size := written.size.trans (Memory.allocSlot_takes allocated).size
  tree := by
    obtain ⟨rest, _, rfl⟩ := Memory.allocSlot_eq_some allocated
    rfl

section

variable (taken : mem.TakesWriting slot mem')

include taken

theorem frame (other : Nat) (unowned : mem.count other = 0) :
    mem'.pool.cache other = mem.pool.cache other := by
  refine taken.others other ?_
  rintro rfl
  have counted := taken.count other
  rw [count_singleton_self] at counted
  omega

theorem moves_new (queued : req.Queued) (named : req.mambaPoolIdx = some slot) (reqs : List Req) :
    Moves cache mem reqs mem' (req :: reqs) where
  slots := by
    constructor
    · intro other
      have counted := taken.count other
      simp only [holding]
      rw [ownersAmong_cons, ownersAmong_singleton, Req.slots_of_unfinished queued.1]
      simp only [Req.named, named, Req.trackBufferToFree, queued.2.2, Option.toList_some,
        append_nil]
      omega
    · intro other unowned
      exact taken.frame other (Nat.eq_zero_of_add_eq_zero_right unowned)
  rows := by
    rw [taken.rows]
    simp [rowsHeld, queued.2.1]
  size := taken.size
  tree := fun _ => taken.tree.trans
  buffers := fun fit => forall_mem_cons.mpr ⟨Req.fits_of_none queued.2.2, fit⟩

theorem moves_back (reqs : List Req) :
    Moves cache mem reqs (mem'.freeSlot slot) reqs where
  slots := by
    constructor
    · intro other
      have counted := taken.count other
      have freed := (mem'.freeSlot_takes slot).count other
      simp only [holding]
      omega
    · intro other unowned
      exact taken.frame other (Nat.eq_zero_of_add_eq_zero_right unowned)
  rows := by
    change mem'.freeRows.length + _ = _
    rw [taken.rows]
  size := taken.size
  tree := fun _ => taken.tree.trans
  buffers := id

end

end Memory.TakesWriting

theorem Enqueued.accounts {mid : State τ} (enqueued : Enqueued mid req s')
    (moves : Moves cfg.cache s.mem s.accounted mid.mem (req :: mid.accounted)) (queued : req.Queued)
    (uids : s.nextUid ≤ mid.nextUid) (sound : mid.Sound) : Accounts cfg s s' := by
  obtain ⟨priority, time, perm, waiting⟩ := enqueued.joined
  constructor
  · have relabelled : Moves cfg.cache mid.mem [req] mid.mem
        [{ req with priority := priority, waitQueueEntryTime := time }] :=
      moves_relabel mid.mem rfl rfl rfl rfl
    rw [enqueued.mem]
    exact (moves.trans (relabelled.cons mid.accounted)).perm (.refl _) perm.symm
  · rw [enqueued.nextUid]
    exact uids
  · constructor
    · intro other member
      rcases waiting other member with rfl | old
      · exact queued
      · exact sound.waiting other old
    · rw [enqueued.lastBatch, enqueued.runningBatch]
      exact sound.placed
    · rw [enqueued.chunkedReq]
      exact sound.chunked

/-- A handler that leaves the requests alone and gives back what it took. -/
theorem accounts_of_mem {pending : PendingRestores τ}
    (moves : Moves cfg.cache s.mem s.accounted mem s.accounted) (sound : s.Sound) :
    Accounts cfg s { s with mem, pending } :=
  ⟨moves, Nat.le_refl _, sound.waiting, sound.placed, sound.chunked⟩

section Handlers

variable [Torch τ] {rid : String} {s : State τ}

inductive Restored (cfg : Config) (s : State τ) (recv : RestoreReq) : State τ → Prop
  | unchanged : Restored cfg s recv s
  | staged (pending : PendingRestores τ) : Restored cfg s recv { s with pending }
  /-- a slot was taken and given back -/
  | givenBack {slot : Nat} {mem : Memory τ} (writes : s.mem.TakesWriting slot mem) :
      Restored cfg s recv { s with mem := mem.freeSlot slot }
  /-- a new request goes to the queue with its slot -/
  | created {slot : Nat} {mem : Memory τ} {req : Req} {s' : State τ}
      (create : recv.createNewRequest = true) (writes : s.mem.TakesWriting slot mem)
      (named : req.mambaPoolIdx = some slot) (queued : req.Queued) (number : req.uid = s.nextUid)
      (added : addRequestToQueue cfg { s with mem, nextUid := s.nextUid + 1 } req = .ok s') :
      Restored cfg s recv s'
  /-- the injection into the slot of a live request has failed -/
  | broken {rid : String} {req : Req} (existing : recv.createNewRequest = false)
      (named : recv.rid = some rid) (found : s.findIdle rid = some req) (convStates : List τ)
      (temporalStates : τ) (slot : Nat) :
      Restored cfg s recv
        { s with mem :=
          { s.mem with pool := (injectStateToPool convStates temporalStates s.mem.pool slot).2 } }
  /-- the injection has succeeded, and the request is brought in line -/
  | live {rid : String} {req : Req} (existing : recv.createNewRequest = false)
      (named : recv.rid = some rid) (found : s.findIdle rid = some req) (convStates : List τ)
      (temporalStates : τ) (slot : Nat) (pending : PendingRestores τ) (conversation : Key)
      (fillIds : List Nat) :
      Restored cfg s recv
        (({ s with
          pending
          mem := { s.mem with
            pool := (injectStateToPool convStates temporalStates s.mem.pool slot).2 } } :
          State τ).modify req.uid (·.syncRestored conversation fillIds))

theorem createFromSnapshot_restored (cfg : Config) (s : State τ) (recv : RestoreReq)
    (create : recv.createNewRequest = true) (conversation : Key) (snapshot : LoadedSnapshot τ)
    (newRid : String) :
    Restored cfg s recv (createFromSnapshot cfg s recv conversation snapshot newRid).1 := by
  unfold createFromSnapshot
  split
  · exact .unchanged
  next slot taken allocated =>
  have written := injectStateToPool_agreesOff snapshot.convStates snapshot.temporalStates
    taken.pool slot
  have writes := Memory.TakesWriting.of_inject allocated written
  split
  · next error pool injected =>
    rw [injected] at writes
    exact .givenBack writes
  next pool injected =>
  rw [injected] at writes
  simp only
  split
  · exact .givenBack writes
  split
  · exact .givenBack writes
  split
  · exact .givenBack writes
  · next s' added => exact .created create writes rfl ⟨rfl, rfl, rfl⟩ rfl added

theorem handleLive_restored (cfg : Config) (s : State τ) (source : SnapshotSource τ)
    (recv : RestoreReq) (existing : recv.createNewRequest = false) (named : recv.rid = some rid)
    (found : s.findIdle rid = some req) :
    Restored cfg s recv (handleLive cfg s source recv req).1 := by
  unfold handleLive
  simp only
  split
  · exact .unchanged
  next slot _ =>
  split
  · exact .unchanged
  next snapshot _ =>
  split
  · exact .unchanged
  split
  · exact .unchanged
  split
  · next error pool injected =>
    obtain rfl : (injectStateToPool snapshot.convStates snapshot.temporalStates s.mem.pool
        slot).2 = pool := by rw [injected]
    exact .broken existing named found _ _ _
  · next pool injected =>
    obtain rfl : (injectStateToPool snapshot.convStates snapshot.temporalStates s.mem.pool
        slot).2 = pool := by rw [injected]
    exact .live existing named found _ _ _ _ _ _

theorem handleRestoreSnapshot_restored (cfg : Config) (s : State τ) (source : SnapshotSource τ)
    (recv : RestoreReq) (newRid : String) :
    Restored cfg s recv (handleRestoreSnapshot cfg s source recv newRid).1 := by
  have staged : Restored cfg s recv (handleStage cfg s source recv).1 := by
    unfold handleStage
    simp only
    split
    · exact .unchanged
    split
    · exact .unchanged
    · exact .staged _
  -- the three paths: create, stage and live
  unfold handleRestoreSnapshot
  split
  · next create =>
    unfold handleCreate
    simp only
    split
    · exact .unchanged
    split
    · exact .unchanged
    split
    · exact .unchanged
    · exact createFromSnapshot_restored cfg s recv create _ _ newRid
  next existing =>
  split
  · exact staged
  next rid named =>
  split
  · exact .unchanged
  split
  · exact staged
  · next req found =>
    exact handleLive_restored cfg s source recv (by simpa using existing) named found

theorem inject_moves (conserved : s.Conserved) (convStates : List τ) (temporalStates : τ)
    (slot : Nat) :
    Moves cfg.cache s.mem s.accounted
      { s.mem with pool := (injectStateToPool convStates temporalStates s.mem.pool slot).2 }
      s.accounted := by
  have written := injectStateToPool_agreesOff convStates temporalStates s.mem.pool slot
  refine ⟨⟨?_, ?_⟩, rfl, written.size, fun _ => id, id⟩
  · intro other
    simp only [holding, Memory.count, written.freeSlots]
  intro other unowned
  by_cases outside : slot < 1 ∨ slot > s.mem.pool.size
  · simp only [injectStateToPool, if_pos outside]
  refine written.others other ?_
  rintro rfl
  have owned := conserved other
  have inside : 1 ≤ other ∧ other ≤ s.mem.pool.size := by
    omega
  rw [if_pos inside] at owned
  simp only [holding] at unowned
  omega

omit [Torch τ] in
/-- A change of requests in the containers that leaves their memory alone. -/
theorem accounts_map {f g : Req → Req} (inFlight : ∀ req : Req, req.SameMemory (f req))
    (waiting : ∀ req : Req, req.SameMemory (g req)) (sound : s.Sound) :
    Accounts cfg s { s with
      waitingQueue := s.waitingQueue.map g
      lastBatch := s.lastBatch.map f
      runningBatch := s.runningBatch.map f
      chunkedReq := s.chunkedReq.map f } := by
  constructor
  · have queue := (moves_map cfg.cache waiting s.mem s.waitingQueue).beside
      (s.inFlight ++ s.dropped)
    have batches := (moves_map cfg.cache inFlight s.mem s.inFlight).within
      (s.waitingQueue.map g) s.dropped
    have chunked : s.chunkedReq.toList.map f = (s.chunkedReq.map f).toList := by
      cases s.chunkedReq <;> rfl
    simp only [State.accounted, State.requests, State.inFlight, map_append, chunked,
      append_assoc] at queue batches ⊢
    exact queue.trans batches
  · exact Nat.le_refl _
  · constructor
    · intro req member
      obtain ⟨old, held, rfl⟩ := mem_map.mp member
      exact (waiting old).queued (sound.waiting old held)
    · intro req member
      rw [← map_append] at member
      obtain ⟨old, held, rfl⟩ := mem_map.mp member
      exact (inFlight old).placed (sound.placed old held)
    · intro req found
      obtain ⟨old, held, rfl⟩ := Option.map_eq_some_iff.mp found
      obtain ⟨unfinished, placed⟩ := sound.chunked old held
      exact ⟨(inFlight old).reason.trans unfinished, (inFlight old).placed placed⟩

theorem changeReq_sameMemory {f : Req → Req} (same : ∀ req : Req, req.SameMemory (f req))
    (uid : Nat) (req : Req) : req.SameMemory (changeReq uid f req) := by
  unfold changeReq
  split
  · exact same req
  · exact ⟨rfl, rfl, rfl, rfl, rfl⟩

/-- Whatever the request asks for, the restore handler loses no slot. -/
theorem Restored.accounts {recv : RestoreReq} (restored : Restored cfg s recv s') (sound : s.Sound)
    (conserved : s.Conserved) :
    Accounts cfg s s' := by
  cases restored with
  | unchanged => exact ⟨.refl _ _, Nat.le_refl _, sound⟩
  | staged pending => exact accounts_of_mem (.refl _ _) sound
  | givenBack writes => exact accounts_of_mem (writes.moves_back s.accounted) sound
  | created _ writes named queued _ added =>
    exact ((addRequestToQueue_enqueued tolerates_all _ _ _).yields added).accounts
      (writes.moves_new queued named s.accounted) queued (Nat.le_succ _)
      ⟨sound.waiting, sound.placed, sound.chunked⟩
  | broken _ _ _ convStates temporalStates slot =>
    exact accounts_of_mem (inject_moves conserved convStates temporalStates slot) sound
  | live _ _ _ convStates temporalStates slot pending conversation fillIds =>
    have injected : Accounts cfg s { s with
        pending
        mem := { s.mem with
          pool := (injectStateToPool convStates temporalStates s.mem.pool slot).2 } } :=
      accounts_of_mem (inject_moves conserved convStates temporalStates slot) sound
    have synced := changeReq_sameMemory (f := (·.syncRestored conversation fillIds))
      (fun _ => ⟨rfl, rfl, rfl, rfl, rfl⟩)
    exact injected.trans (accounts_map (synced _) (synced _) injected.sound)

theorem allocAndInject_moves (cache : TreeCache) (entry : PendingRestoreEntry τ) (mem : Memory τ)
    (reqs : List Req) :
    match allocAndInject entry mem.pool with
    | (some slot, pool) => mem.TakesWriting slot { mem with pool }
    | (none, pool) => Moves cache mem reqs { mem with pool } reqs := by
  split
  · next slot pool hydrated =>
    obtain ⟨listed, size, _, others⟩ := allocAndInject_some hydrated
    refine ⟨?_, others, rfl, size, rfl⟩
    intro other
    simp only [Memory.count, listed, count_cons, count_nil]
    omega
  · next pool failed =>
    rcases allocAndInject_none failed with rfl | ⟨slot, rest, listed, back, size, others⟩
    · exact .refl _ _
    refine ⟨⟨?_, ?_⟩, rfl, size, fun _ => id, id⟩
    · intro other
      simp only [holding, Memory.count, listed, back, count_append, count_cons, count_nil]
      omega
    intro other unowned
    refine others other ?_
    rintro rfl
    simp only [holding, Memory.count, listed, count_cons, beq_self_eq_true, if_true]
      at unowned
    omega

theorem maybeHydrate_moves (p : PendingRestores τ) (mem : Memory τ) (req : Req)
    (queued : req.Queued) (unnamed : req.mambaPoolIdx = none) (reqs : List Req) :
    ∀ result pending pool req',
      maybeHydrateFromPendingRestore p (some mem.pool) req = (result, pending, pool, req') →
        Moves cache mem reqs { mem with pool := pool.getD mem.pool } (req' :: reqs) ∧
          req'.Queued ∧ req'.uid = req.uid := by
  have nothing : Moves cache mem reqs mem (req :: reqs) := queued.moves_enter unnamed mem reqs
  intro result pending pool req' attempted
  unfold maybeHydrateFromPendingRestore at attempted
  rw [if_neg (not_not.mpr unnamed)] at attempted
  split at attempted
  · cases attempted
    exact ⟨nothing, queued, rfl⟩
  next canonical entry _ =>
  have moved := allocAndInject_moves cache entry mem (req :: reqs)
  simp only at attempted
  split at attempted
  · next left failed =>
    rw [failed] at moved
    cases attempted
    exact ⟨nothing.trans moved, queued, rfl⟩
  · next slot left hydrated =>
    rw [hydrated] at moved
    cases attempted
    refine ⟨?_, queued, rfl⟩
    apply moved.moves_new
    · exact queued
    · rfl

omit [Torch τ] in
/-- The checks change the prompt and the reason to finish, nothing else. -/
theorem validated_eq (cfg : Config) (recv : GenerateReq) (req : Req) :
    ∃ ids reason, validated cfg recv req =
      { req with originInputIds := ids, toFinish := reason } := by
  unfold validated validateInputLength
  split
  · next message cut checked =>
    split at checked
    · split at checked
      · cases checked
      · cases checked
        exact ⟨_, _, rfl⟩
    · cases checked
  · next cut checked =>
    have same : ∃ ids, cut = { req with originInputIds := ids } := by
      split at checked
      · split at checked
        · cases checked
          exact ⟨_, rfl⟩
        · cases checked
      · cases checked
        exact ⟨_, rfl⟩
    obtain ⟨ids, rfl⟩ := same
    split
    · exact ⟨_, _, rfl⟩
    · exact ⟨ids, req.toFinish, rfl⟩

omit [Torch τ] in
theorem validated_sameMemory (cfg : Config) (recv : GenerateReq) (req : Req) :
    req.SameMemory (validated cfg recv req) := by
  obtain ⟨ids, reason, same⟩ := validated_eq cfg recv req
  rw [same]
  exact ⟨rfl, rfl, rfl, rfl, rfl⟩

include tolerates in
theorem handleGenerateRequest_accounts (cfg : Config) (sound : s.Sound) (recv : GenerateReq) :
    Ends P (Accounts cfg s) (handleGenerateRequest cfg s recv) := by
  unfold handleGenerateRequest
  simp only
  generalize attempted : maybeHydrateFromPendingRestore s.pending (some s.mem.pool) _ = outcome
  obtain ⟨result, pending, pool, req⟩ := outcome
  obtain ⟨moves, queued, _⟩ := maybeHydrate_moves s.pending s.mem _ ⟨rfl, rfl, rfl⟩ rfl s.accounted
    result pending pool req attempted
  -- a failed hydration and a failed check change the prompt, not the memory
  have same : req.SameMemory (if result = .failed then
      req.setFinishWithAbort (hydrationFailed req.rid) else validated cfg recv req) := by
    split
    · exact ⟨rfl, rfl, rfl, rfl, rfl⟩
    · exact validated_sameMemory cfg recv req
  refine (addRequestToQueue_enqueued tolerates _ _ _).mono ?_
  intro s' enqueued
  exact enqueued.accounts (moves.trans ((same.moves _).cons _)) (same.queued queued)
    (Nat.le_succ _) ⟨sound.waiting, sound.placed, sound.chunked⟩

end Handlers

/-! ### Aborts -/

include tolerates in
theorem abortQueued_moves (cfg : Config) (recv : AbortReq) (mem : Memory τ)
    (unfinished : ∀ req ∈ queue, req.Queued) :
    Ends P (fun out => ∃ gone : List Req, Moves cfg.cache mem queue out.1 (out.2 ++ gone) ∧
        (∀ req ∈ gone, req.EmptyHanded) ∧ out.1.pool.cache = mem.pool.cache ∧
          out.2 = queue.filter (!recv.hits ·))
      (abortQueued cfg recv mem queue) := by
  induction queue with
  | nil => exact ⟨[], .refl _ _, by simp, rfl, rfl⟩
  | cons req queue ih =>
    obtain ⟨queued, others⟩ := forall_mem_cons.mp unfinished
    refine (ih others).bind ?_
    rintro ⟨later, kept⟩ - ⟨gone, moves, empty, content, filtered⟩
    have beside : Moves cfg.cache mem (req :: queue) later (req :: (kept ++ gone)) :=
      (moves.beside [req]).perm (perm_append_singleton _ _)
        (perm_append_singleton _ _)
    simp only at filtered ⊢
    split
    · next hit =>
      split
      · refine (releaseKvCache_releases tolerates later (by simp [queued.2.1]) (fun _ => queued.2.2)
          false true).bind ?_
        rintro ⟨freed, released⟩ - ⟨releases, row, unnamed⟩
        -- what a hit request had goes to the free list
        have left : released.Queued :=
          ⟨releases.reason.trans queued.1, row, releases.buffer.trans queued.2.2⟩
        have nothing := left.emptyHanded (unnamed rfl)
        have given := (releases.moves queued.1 rfl rfl nothing.1 rfl
          (fun _ => Req.fits_of_none left.2.2)).cons (kept ++ gone)
        exact ⟨released :: gone, (beside.trans given).perm (.refl _) perm_middle.symm,
          forall_mem_cons.mpr ⟨nothing, empty⟩,
            releases.cache.trans content, by simp [hit, filtered]⟩
      · next unnamed =>
        exact ⟨req :: gone, beside.perm (.refl _) perm_middle.symm,
          forall_mem_cons.mpr ⟨queued.emptyHanded (by simpa using unnamed), empty⟩, content,
          by simp [hit, filtered]⟩
    · next missed => exact ⟨gone, beside, empty, content, by simp [missed, filtered]⟩

theorem AbortReq.mark_sameMemory (recv : AbortReq) (req : Req) :
    req.SameMemory (recv.mark req) := by
  unfold AbortReq.mark
  split
  · exact ⟨rfl, rfl, rfl, rfl, rfl⟩
  · exact ⟨rfl, rfl, rfl, rfl, rfl⟩

include tolerates in
theorem abortRequest_accounts (cfg : Config) (sound : s.Sound) (recv : AbortReq) :
    Ends P (Accounts cfg s) (abortRequest cfg s recv) := by
  refine (abortQueued_moves tolerates cfg recv s.mem sound.waiting).bind ?_
  rintro ⟨mem, queue⟩ - ⟨gone, moves, empty, -, filtered⟩
  obtain rfl : queue = _ := filtered
  have waiting := (moves.forget empty).beside (s.inFlight ++ s.dropped)
  have released : Accounts cfg s
      { s with mem, waitingQueue := s.waitingQueue.filter (!recv.hits ·) } := by
    refine ⟨?_, Nat.le_refl _, fun req member => ?_, sound.placed, sound.chunked⟩
    · simpa only [State.accounted, State.requests, State.inFlight, append_assoc] using waiting
    · exact sound.waiting req (mem_filter.mp member).1
  have marked := released.trans (accounts_map recv.mark_sameMemory
    (fun _ => ⟨rfl, rfl, rfl, rfl, rfl⟩ : ∀ req : Req, req.SameMemory (id req)) released.sound)
  rw [map_id] at marked
  exact ⟨marked.moves, marked.uids, marked.sound.waiting, marked.sound.placed,
    marked.sound.chunked⟩

end Engram.Scheduler
