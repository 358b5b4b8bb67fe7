import Engram.Memory.Exchange
import Engram.Scheduler.Reachable

/-!
# Restores and requests in a batch

`_find_request_by_rid` looks through `running_batch`, `cur_batch`, `last_batch` and
the waiting queue, and the idleness test of `handle_restore_snapshot` looks at
`running_batch` alone. Here the scheduler also has its `cur_batch`, and a request in
several containers is one object, known by its number. A live restore leaves the
requests in the three batches as they are exactly when it finds none of them outside
`running_batch`, or writes what is already there (`restore_spares_in_flight_iff`).
-/

namespace Engram.Scheduler

open Engram.Lib Engram.Lib.Transition Engram.Memory Engram.Restore Engram.Snapshot List

variable {τ : Type}

/-- The scheduler together with the requests of its `cur_batch`. -/
structure Scheduling (τ : Type) where
  state : State τ
  curBatch : List Req

namespace Scheduling

/-- The requests of `last_batch`; the state keeps the chunked one apart from the rest. -/
def lastReqs (s : Scheduling τ) : List Req :=
  s.state.lastBatch ++ s.state.chunkedReq.toList

def inFlight (s : Scheduling τ) : List Req :=
  s.state.runningBatch ++ (s.curBatch ++ s.lastReqs)

def objects (s : Scheduling τ) : List Req :=
  s.inFlight ++ s.state.waitingQueue

/-- `_find_request_by_rid`. A batch that is searched twice gives the same answer, so
    `seen_batches` needs no counterpart. -/
def findRequestByRid (s : Scheduling τ) (rid : String) : Option Req :=
  let searchBatch (reqs : List Req) := reqs.find? (·.rid == rid)
  (searchBatch s.state.runningBatch).or <|
    (searchBatch s.curBatch).or <|
      (searchBatch s.lastReqs).or <|
        s.state.waitingQueue.find? (·.rid == rid)

def modify (s : Scheduling τ) (uid : Nat) (f : Req → Req) : Scheduling τ where
  state := s.state.modify uid f
  curBatch := s.curBatch.map (changeReq uid f)

section Handlers

variable [Torch τ]

def handleLive (cfg : Config) (s : Scheduling τ) (source : SnapshotSource τ) (recv : RestoreReq)
    (req : Req) : Scheduling τ × Option RestoreReply :=
  let conversation := Key.or recv.conversationId recv.rid
  match req.mambaPoolIdx with
  | none => (s, some .noMambaState)
  | some slot =>
    match source.load conversation recv.turnNumber recv.branchName with
    | none => (s, some .restoreFailed)
    | some snapshot =>
      if modelDiffers cfg snapshot then
        (s, some (.modelMismatch snapshot.modelName cfg.modelPath))
      else
        match snapshot.fillIds with
        | none => (s, some .fillIdsMissing)
        | some fillIds =>
          match injectStateToPool snapshot.convStates snapshot.temporalStates s.state.mem.pool
              slot with
          | (some _, pool) =>
            ({ s with state := { s.state with mem := { s.state.mem with pool } } },
              some .restoreFailed)
          | (none, pool) =>
            let state := { s.state with
              mem := { s.state.mem with pool }
              pending := s.state.pending.clearPendingRestore recv.rid conversation }
            (({ s with state } : Scheduling τ).modify req.uid
                (·.syncRestored conversation fillIds),
              some (.restored recv.rid slot snapshot.tokenCount))

/-- `handle_restore_snapshot`. The test `req in scheduler.running_batch.reqs` compares
    objects. -/
def handleRestoreSnapshot (cfg : Config) (s : Scheduling τ) (source : SnapshotSource τ)
    (recv : RestoreReq) (newRid : String) : Scheduling τ × Option RestoreReply :=
  if recv.createNewRequest then
    let (state, reply) := Scheduler.handleCreate cfg s.state source recv newRid
    ({ s with state }, reply)
  else
    match recv.rid.bind s.findRequestByRid with
    | none =>
      let (state, reply) := Scheduler.handleStage cfg s.state source recv
      ({ s with state }, reply)
    | some req =>
      if s.state.runningBatch.any (·.uid == req.uid) then (s, some .requestRunning)
      else s.handleLive cfg source recv req

end Handlers

/-! ### One object in several containers -/

variable {s : Scheduling τ} {req : Req} {rid : String}

/-- What the scheduler guarantees of its containers: a number stands for one object, a
    new object gets a new number, and the slot of a request in a batch is neither free nor
    the slot of a waiting request. -/
structure Consistent (s : Scheduling τ) : Prop where
  identity : ∀ a ∈ s.objects, ∀ b ∈ s.objects, a.uid = b.uid → a = b
  numbered : ∀ a ∈ s.objects, a.uid < s.state.nextUid
  taken : ∀ a ∈ s.inFlight, ∀ slot, a.owns slot = true → slot ∉ s.state.mem.pool.freeSlots
  apart : ∀ a ∈ s.inFlight, ∀ slot, a.owns slot = true →
    ∀ b ∈ s.state.waitingQueue, b.mambaPoolIdx = some slot → b.uid = a.uid

/-- Every state the scheduler reaches is consistent when `cur_batch` holds nothing but
    requests of the other containers, which number their requests apart. -/
theorem Consistent.of_invariant {cfg : Config} {size rows : Nat}
    (inv : s.state.Invariant cfg size rows) (current : ∀ a ∈ s.curBatch, a ∈ s.state.inFlight)
    (distinct : (s.state.requests.map (·.uid)).Nodup)
    (numbered : ∀ a ∈ s.state.requests, a.uid < s.state.nextUid) : s.Consistent := by
  have inFlight_of : ∀ a ∈ s.inFlight, a ∈ s.state.inFlight := by
    intro a member
    simp only [inFlight, lastReqs, mem_append] at member
    simp only [State.inFlight, mem_append]
    rcases member with running | current' | last | chunked
    · exact .inl (.inr running)
    · simpa only [State.inFlight, mem_append] using current a current'
    · exact .inl (.inl last)
    · exact .inr chunked
  have request_of : ∀ a ∈ s.objects, a ∈ s.state.requests := by
    intro a member
    rcases mem_append.mp member with flying | waiting
    · exact mem_append_right _ (inFlight_of a flying)
    · exact mem_append_left _ waiting
  -- at most one owner among the free list, the queue and the batches
  have owners : ∀ slot, s.state.mem.pool.freeSlots.count slot +
      (ownersAmong s.state.waitingQueue slot + ownersAmong s.state.inFlight slot) ≤ 1 := by
    intro slot
    have counted := inv.conserved slot
    rw [State.accounted, State.requests, ownersAmong_append, ownersAmong_append,
      Memory.count] at counted
    have bounded : (if 1 ≤ slot ∧ slot ≤ s.state.mem.pool.size then 1 else 0) ≤ 1 := by
      split <;> omega
    omega
  -- a request in a batch is one of the owners of its slot
  have owned : ∀ a ∈ s.inFlight, ∀ slot, a.owns slot = true →
      0 < ownersAmong s.state.inFlight slot := by
    intro a member slot owns
    exact ownersAmong_pos (inFlight_of a member) owns
  refine ⟨?_, fun a member => numbered a (request_of a member), ?_, ?_⟩
  · intro a memberA b memberB same
    exact inj_on_of_nodup_map distinct (request_of a memberA) (request_of b memberB) same
  · intro a member slot owns free
    have counted := count_pos_iff.mpr free
    have one := owners slot
    have other := owned a member slot owns
    omega
  · intro a member slot owns b waiting named
    have counted := ownersAmong_pos waiting
      (Req.owns_of_named (inv.sound.waiting b waiting).1 named)
    have one := owners slot
    have other := owned a member slot owns
    omega

theorem mem_inFlight :
    req ∈ s.inFlight ↔ req ∈ s.state.runningBatch ∨ req ∈ s.curBatch ++ s.lastReqs :=
  mem_append

theorem mem_objects :
    req ∈ s.objects ↔ req ∈ s.inFlight ∨ req ∈ s.state.waitingQueue :=
  mem_append

theorem objects_modify (s : Scheduling τ) (uid : Nat) (f : Req → Req) :
    (s.modify uid f).objects =
      s.objects.map (changeReq uid f) := by
  simp only [objects, inFlight, lastReqs, modify, State.modify, map_append]
  cases s.state.chunkedReq <;> rfl

theorem mem_objects_of_findRequestByRid (found : s.findRequestByRid rid = some req) :
    req ∈ s.objects := by
  simp only [findRequestByRid, Option.or_eq_some_iff] at found
  simp only [objects, inFlight, mem_append]
  rcases found with running | ⟨-, current | ⟨-, last | ⟨-, waiting⟩⟩⟩
  · exact .inl (.inl (mem_of_find?_eq_some running))
  · exact .inl (.inr (.inl (mem_of_find?_eq_some current)))
  · exact .inl (.inr (.inr (mem_of_find?_eq_some last)))
  · exact .inr (mem_of_find?_eq_some waiting)

/-! ### The handler on the state alone -/

section State

variable [Torch τ]

/-- The live path does to the state what it does there without `cur_batch`. -/
theorem handleLive_state (cfg : Config) (s : Scheduling τ) (source : SnapshotSource τ)
    (recv : RestoreReq) (req : Req) :
    Prod.map state id (s.handleLive cfg source recv req) =
      Scheduler.handleLive cfg s.state source recv req := by
  simp only [handleLive, Scheduler.handleLive]
  cases req.mambaPoolIdx with
  | none => rfl
  | some slot =>
    cases source.load (Key.or recv.conversationId recv.rid) recv.turnNumber recv.branchName with
    | none => rfl
    | some snapshot =>
      cases differs : modelDiffers cfg snapshot with
      | true => simp [differs]
      | false =>
        simp only [differs, Bool.false_eq_true, if_false]
        cases snapshot.fillIds with
        | none => rfl
        | some fillIds =>
          simp only
          generalize injectStateToPool snapshot.convStates _ _ _ = injected
          obtain ⟨_ | error, pool⟩ := injected <;> rfl

/-- Between two iterations `cur_batch` is the last batch or, after a decode, the running
    one. Then the handler does to the state, and answers, what it does without `cur_batch`. -/
theorem handleRestoreSnapshot_state (cfg : Config) (s : Scheduling τ)
    (identity : ∀ a ∈ s.objects, ∀ b ∈ s.objects, a.uid = b.uid → a = b)
    (current : s.curBatch = s.lastReqs ∨ s.curBatch = s.state.runningBatch)
    (source : SnapshotSource τ) (recv : RestoreReq) (newRid : String) :
    Prod.map state id (s.handleRestoreSnapshot cfg source recv newRid) =
      Scheduler.handleRestoreSnapshot cfg s.state source recv newRid := by
  unfold handleRestoreSnapshot Scheduler.handleRestoreSnapshot
  split
  · rfl
  cases named : recv.rid with
  | none => rfl
  | some rid =>
    simp only [Option.bind_some]
    cases running : s.state.runningBatch.find? (·.rid == rid) with
    | some req =>
      -- found in the running batch, by its id here and by its number there
      have member := mem_of_find?_eq_some running
      have same := find?_some running
      have listed : s.state.runningBatch.any (·.rid == rid) = true :=
        any_eq_true.mpr ⟨req, member, same⟩
      have numbered : s.state.runningBatch.any (·.uid == req.uid) = true :=
        any_eq_true.mpr ⟨req, member, beq_self_eq_true _⟩
      simp [findRequestByRid, running, listed, numbered]
    | none =>
      have unlisted : s.state.runningBatch.any (·.rid == rid) = false := by
        simpa [any_eq_false, find?_eq_none] using running
      -- the search of `cur_batch` adds nothing
      have found : s.findRequestByRid rid = s.state.findIdle rid := by
        simp only [findRequestByRid, State.findIdle, running, Option.none_or, lastReqs,
          find?_append, Option.or_assoc]
        rcases current with last | running'
        · simp only [last, lastReqs, find?_append]
          cases s.state.lastBatch.find? (·.rid == rid) <;>
            cases s.state.chunkedReq.toList.find? (·.rid == rid) <;> simp
        · simp only [running', running, Option.none_or]
      rw [found, unlisted]
      cases idle : s.state.findIdle rid with
      | none => rfl
      | some req =>
        have held : req ∈ s.objects := by
          rw [← found] at idle
          exact mem_objects_of_findRequestByRid idle
        have elsewhere : s.state.runningBatch.any (·.uid == req.uid) = false := by
          simp only [any_eq_false, beq_iff_eq]
          intro other member same
          have equal := identity other (by simp [objects, inFlight, member]) req held same
          have ids := find?_eq_none.mp running other member
          rw [equal] at ids
          have answers := find?_some idle
          exact ids answers
        simpa [elsewhere] using handleLive_state cfg s source recv req

end State

/-! ### Effects on the requests in a batch -/

/-- No request in one of the three batches sees its input ids, its fill ids or the pool
    state it owns changed. -/
structure SparesInFlight (s s' : Scheduling τ) : Prop where
  ids : ∀ req ∈ s.inFlight, ∀ req' ∈ s'.objects, req'.uid = req.uid →
    req'.fillIds = req.fillIds ∧ req'.originInputIds = req.originInputIds
  pool : ∀ req ∈ s.inFlight, ∀ slot, req.owns slot = true →
    s'.state.mem.pool.cache slot = s.state.mem.pool.cache slot

namespace SparesInFlight

theorem of_objects {s' : Scheduling τ} (consistent : s.Consistent)
    (objects : ∀ req ∈ s'.objects, req ∈ s.objects ∨ s.state.nextUid ≤ req.uid)
    (pool : ∀ req ∈ s.inFlight, ∀ slot, req.owns slot = true →
      s'.state.mem.pool.cache slot = s.state.mem.pool.cache slot) : s.SparesInFlight s' := by
  refine ⟨?_, pool⟩
  intro req flying req' member same
  have held : req ∈ s.objects := mem_objects.mpr (.inl flying)
  rcases objects req' member with old | new
  · obtain rfl := consistent.identity req' old req held same
    exact ⟨rfl, rfl⟩
  · have bound := consistent.numbered req held
    omega

theorem of_pending (consistent : s.Consistent) (pending : PendingRestores τ) :
    s.SparesInFlight { s with state := { s.state with pending } } :=
  of_objects consistent (fun _ member => .inl member) (fun _ _ _ _ => rfl)

theorem refl (consistent : s.Consistent) : s.SparesInFlight s :=
  of_objects consistent (fun _ member => .inl member) (fun _ _ _ _ => rfl)

end SparesInFlight

/-! ### New requests and staged snapshots -/

/-- A slot taken from the free list is not the slot of a request in a batch. -/
theorem Consistent.cache_of_takesWriting (consistent : s.Consistent) {slot : Nat} {mem : Memory τ}
    (writes : s.state.mem.TakesWriting slot mem) :
    ∀ req ∈ s.inFlight, ∀ own, req.owns own = true →
      mem.pool.cache own = s.state.mem.pool.cache own := by
  intro req flying own owns
  apply writes.others
  rintro rfl
  apply consistent.taken req flying own owns
  have counted := writes.count own
  simp only [Memory.count, writes.tree, count_singleton_self] at counted
  exact count_pos_iff.mp (by omega)

section Handlers

variable [Torch τ] {cfg : Config} {s : Scheduling τ} {source : SnapshotSource τ} {recv : RestoreReq}
  {req : Req} {slot : Nat} {snapshot : LoadedSnapshot τ} {fillIds : List Nat}

/-- The create path writes no slot but one of the free list. -/
theorem SparesInFlight.of_create {cfg : Config} {recv : RestoreReq} {state : State τ}
    (consistent : s.Consistent) (create : recv.createNewRequest = true)
    (restored : Restored cfg s.state recv state) : s.SparesInFlight { s with state } := by
  cases restored with
  | unchanged => exact .refl consistent
  | staged pending => exact .of_pending consistent pending
  | @givenBack slot mem writes =>
    have cache := consistent.cache_of_takesWriting writes
    exact .of_objects consistent (fun _ member => .inl member) cache
  | @created slot mem req _ _ writes named queued number added =>
    have enqueued := (addRequestToQueue_enqueued tolerates_all _ _ _).yields added
    obtain ⟨priority, time, -, waiting⟩ := enqueued.joined
    refine .of_objects consistent ?_ ?_
    · intro other member
      -- the batches are as they were, and the queue has gained the new request at most
      simp only [objects, inFlight, lastReqs, mem_append, enqueued.runningBatch,
        enqueued.lastBatch, enqueued.chunkedReq] at member ⊢
      rcases member with flying | queuedNow
      · exact .inl (.inl flying)
      · rcases waiting other queuedNow with rfl | old
        · exact .inr number.ge
        · exact .inl (.inr old)
    · have cache := consistent.cache_of_takesWriting writes
      simp only [enqueued.mem]
      exact cache
  | broken existing => simp [create] at existing
  | live existing => simp [create] at existing

omit [Torch τ] in
theorem handleStage_pending (cfg : Config) (s : State τ) (source : SnapshotSource τ)
    (recv : RestoreReq) : ∃ pending, (handleStage cfg s source recv).1 = { s with pending } := by
  simp only [handleStage]
  split
  · exact ⟨s.pending, rfl⟩
  split
  · exact ⟨s.pending, rfl⟩
  · exact ⟨_, rfl⟩

/-! ### The live path -/

/-- The restore request `recv` reaches the injection: it finds `req` outside the running
    batch, with a slot, and a snapshot that passes the checks. -/
structure Targets (cfg : Config) (s : Scheduling τ) (source : SnapshotSource τ)
    (recv : RestoreReq) (req : Req) (slot : Nat) (snapshot : LoadedSnapshot τ)
    (fillIds : List Nat) : Prop where
  existing : recv.createNewRequest = false
  found : recv.rid.bind s.findRequestByRid = some req
  notRunning : ∀ other ∈ s.state.runningBatch, other.uid ≠ req.uid
  named : req.mambaPoolIdx = some slot
  loaded : source.load (Key.or recv.conversationId recv.rid) recv.turnNumber recv.branchName =
    some snapshot
  sameModel : modelDiffers cfg snapshot = false
  ids : snapshot.fillIds = some fillIds

def liveResult (s : Scheduling τ) (recv : RestoreReq) (req : Req) (slot : Nat)
    (snapshot : LoadedSnapshot τ) (fillIds : List Nat) : Scheduling τ :=
  let conversation := Key.or recv.conversationId recv.rid
  match injectStateToPool snapshot.convStates snapshot.temporalStates s.state.mem.pool slot with
  | (some _, pool) => { s with state := { s.state with mem := { s.state.mem with pool } } }
  | (none, pool) =>
    let state := { s.state with
      mem := { s.state.mem with pool }
      pending := s.state.pending.clearPendingRestore recv.rid conversation }
    ({ s with state } : Scheduling τ).modify req.uid (·.syncRestored conversation fillIds)

/-- The slot and the request have already what the snapshot brings: the tensors, converted
    to the dtypes of the pool, as far as they pass the checks in front of them, and the
    token ids, if all tensors do. -/
structure AlreadyHas (s : Scheduling τ) (req : Req) (slot : Nat) (snapshot : LoadedSnapshot τ)
    (fillIds : List Nat) : Prop where
  pool : (∃ other ∈ s.inFlight, other.owns slot = true) →
    ¬ RefusedAtOnce s.state.mem.pool slot snapshot.convStates snapshot.temporalStates →
      HasAlready s.state.mem.pool slot snapshot.convStates snapshot.temporalStates
  ids : 1 ≤ slot ∧ slot ≤ s.state.mem.pool.size →
    Injectable s.state.mem.pool snapshot.convStates snapshot.temporalStates →
      fillIds = req.fillIds ∧ fillIds = req.originInputIds

theorem Targets.handleRestoreSnapshot_eq
    (targets : Targets cfg s source recv req slot snapshot fillIds) (newRid : String) :
    (s.handleRestoreSnapshot cfg source recv newRid).1 =
      s.liveResult recv req slot snapshot fillIds := by
  have notRunning : s.state.runningBatch.any (·.uid == req.uid) = false := by
    simpa using targets.notRunning
  simp only [handleRestoreSnapshot, handleLive, liveResult, targets.existing, targets.found,
    notRunning, targets.named, targets.loaded, targets.sameModel, targets.ids, Bool.false_eq_true,
    if_false]
  split <;> rfl

theorem handleRestoreSnapshot_of_no_target (existing : recv.createNewRequest = false)
    (none_targeted : ∀ req slot snapshot fillIds,
      ¬ Targets cfg s source recv req slot snapshot fillIds) (newRid : String) :
    ∃ pending, (s.handleRestoreSnapshot cfg source recv newRid).1 =
      { s with state := { s.state with pending } } := by
  simp only [handleRestoreSnapshot, existing, Bool.false_eq_true, if_false]
  split
  · obtain ⟨pending, same⟩ := handleStage_pending cfg s.state source recv
    exact ⟨pending, by rw [same]⟩
  next req found =>
  split
  · exact ⟨s.state.pending, rfl⟩
  next idle =>
  have notRunning : ∀ other ∈ s.state.runningBatch, other.uid ≠ req.uid := by
    simpa using idle
  simp only [handleLive]
  split
  · exact ⟨s.state.pending, rfl⟩
  next slot named =>
  split
  · exact ⟨s.state.pending, rfl⟩
  next snapshot loaded =>
  split
  · exact ⟨s.state.pending, rfl⟩
  next sameModel =>
  split
  · exact ⟨s.state.pending, rfl⟩
  next fillIds ids =>
  have reached : Targets cfg s source recv req slot snapshot fillIds :=
    ⟨existing, found, notRunning, named, loaded, by simpa using sameModel, ids⟩
  exact absurd reached (none_targeted req slot snapshot fillIds)

omit [Torch τ] in
theorem Targets.mem_objects (targets : Targets cfg s source recv req slot snapshot fillIds) :
    req ∈ s.objects := by
  obtain ⟨rid, -, found⟩ := Option.bind_eq_some_iff.mp targets.found
  exact mem_objects_of_findRequestByRid found

theorem liveResult_pool (s : Scheduling τ) (recv : RestoreReq) (req : Req) (slot : Nat)
    (snapshot : LoadedSnapshot τ) (fillIds : List Nat) :
    (s.liveResult recv req slot snapshot fillIds).state.mem.pool =
      (injectStateToPool snapshot.convStates snapshot.temporalStates s.state.mem.pool slot).2 := by
  simp only [liveResult]
  split
  · next injected => simp only [injected]
  · next injected => simp only [injected, modify, State.modify]

/-- What a live restore may touch, when the found request is in none of the batches or is
    given what it has. -/
theorem Targets.spares (targets : Targets cfg s source recv req slot snapshot fillIds)
    (consistent : s.Consistent) (has : (∃ other ∈ s.curBatch ++ s.lastReqs, other.uid = req.uid) →
      s.AlreadyHas req slot snapshot fillIds) :
    s.SparesInFlight (s.liveResult recv req slot snapshot fillIds) := by
  have held := targets.mem_objects
  -- a request in a batch with the number of the found one is outside the running batch
  have waiting_batch : ∀ other ∈ s.inFlight, other.uid = req.uid →
      ∃ other ∈ s.curBatch ++ s.lastReqs, other.uid = req.uid := by
    intro other flying same
    rcases mem_inFlight.mp flying with running | batched
    · exact absurd same (targets.notRunning other running)
    · exact ⟨other, batched, same⟩
  constructor
  · intro other flying other' member same
    have otherHeld : other ∈ s.objects := Scheduling.mem_objects.mpr (.inl flying)
    simp only [liveResult] at member
    split at member
    · obtain rfl := consistent.identity other' member other otherHeld same
      exact ⟨rfl, rfl⟩
    next pool injected =>
    rw [objects_modify] at member
    obtain ⟨before, beforeHeld, rfl⟩ := mem_map.mp member
    have number : before.uid = other.uid := by
      rw [← same, changeReq]
      split <;> rfl
    obtain rfl := consistent.identity before beforeHeld other otherHeld number
    unfold changeReq
    split
    · next target =>
      obtain rfl := consistent.identity before otherHeld req held target
      have range := injectStateToPool_range injected
      exact (has (waiting_batch before flying rfl)).ids range
        ((injectStateToPool_none_iff _ _ _ _ range).mp (by rw [injected]))
    · exact ⟨rfl, rfl⟩
  · -- the slots: only that of the found request is written
    intro other flying own owns
    rw [liveResult_pool]
    have written := injectStateToPool_agreesOff snapshot.convStates snapshot.temporalStates
      s.state.mem.pool slot
    by_cases different : own = slot
    · subst different
      by_cases batched : ∃ other ∈ s.curBatch ++ s.lastReqs, other.uid = req.uid
      · exact (injectStateToPool_cache_eq_iff ..).mpr ((has batched).pool ⟨other, flying, owns⟩)
      · -- the found request waits, so no request in a batch owns its slot
        rcases Scheduling.mem_objects.mp held with flyingReq | waiting
        · exact absurd (waiting_batch req flyingReq rfl) batched
        · have same := consistent.apart other flying own owns req waiting targets.named
          exact absurd (waiting_batch other flying same.symm) batched
    · exact written.others own different

/-- A live restore of a request in `cur_batch` or `last_batch` shows, unless nothing is
    written that was not there. -/
theorem Targets.alreadyHas (targets : Targets cfg s source recv req slot snapshot fillIds)
    (consistent : s.Consistent) (batched : ∃ other ∈ s.curBatch ++ s.lastReqs, other.uid = req.uid)
    (spares : s.SparesInFlight (s.liveResult recv req slot snapshot fillIds)) :
    s.AlreadyHas req slot snapshot fillIds := by
  obtain ⟨other, member, same⟩ := batched
  have flying : other ∈ s.inFlight := mem_inFlight.mpr (.inr member)
  have otherHeld : other ∈ s.objects := Scheduling.mem_objects.mpr (.inl flying)
  obtain rfl := consistent.identity other otherHeld req targets.mem_objects same
  constructor
  · rintro ⟨owner, ownerFlying, owns⟩
    apply (injectStateToPool_cache_eq_iff ..).mp
    rw [← liveResult_pool s recv other slot snapshot fillIds]
    exact spares.pool owner ownerFlying slot owns
  intro range injectable
  have injected := (injectStateToPool_none_iff _ _ _ _ range).mpr injectable
  have synced : other.syncRestored (Key.or recv.conversationId recv.rid) fillIds ∈
      (s.liveResult recv other slot snapshot fillIds).objects := by
    simp only [liveResult]
    split
    · next error pool failed => simp [failed] at injected
    · rw [objects_modify]
      exact mem_map.mpr ⟨other, otherHeld, if_pos rfl⟩
  exact spares.ids other flying _ synced rfl

/-- A restore request leaves the requests in the three batches alone exactly when it does
    not reach a request that is in `cur_batch` or `last_batch` only, or writes into it what
    it has. -/
theorem restore_spares_in_flight_iff (cfg : Config) (s : Scheduling τ) (consistent : s.Consistent)
    (source : SnapshotSource τ) (recv : RestoreReq) (newRid : String) :
    s.SparesInFlight (s.handleRestoreSnapshot cfg source recv newRid).1 ↔
      ∀ req slot snapshot fillIds, Targets cfg s source recv req slot snapshot fillIds →
        (∃ other ∈ s.curBatch ++ s.lastReqs, other.uid = req.uid) →
          s.AlreadyHas req slot snapshot fillIds := by
  constructor
  · intro spares req slot snapshot fillIds targets batched
    rw [targets.handleRestoreSnapshot_eq newRid] at spares
    exact targets.alreadyHas consistent batched spares
  intro has
  by_cases create : recv.createNewRequest = true
  · have restored := handleRestoreSnapshot_restored cfg s.state source recv newRid
    simp only [Scheduler.handleRestoreSnapshot, create, if_true] at restored
    simp only [handleRestoreSnapshot, create, if_true]
    exact .of_create consistent create restored
  have existing : recv.createNewRequest = false := by simpa using create
  by_cases targeted : ∃ req slot snapshot fillIds,
      Targets cfg s source recv req slot snapshot fillIds
  · obtain ⟨req, slot, snapshot, fillIds, targets⟩ := targeted
    rw [targets.handleRestoreSnapshot_eq newRid]
    exact targets.spares consistent (has req slot snapshot fillIds targets)
  · obtain ⟨pending, same⟩ := handleRestoreSnapshot_of_no_target existing
      (fun req slot snapshot fillIds targets =>
        targeted ⟨req, slot, snapshot, fillIds, targets⟩) newRid
    rw [same]
    exact .of_pending consistent pending

end Handlers

/-- A request `a` in the last batch, and a request `w` with a staged state in the queue. -/
theorem restore_of_waiting_spares_in_flight :
    let spec : TensorSpec := ⟨.float32, [1]⟩
    let tensor : IntTensor := ⟨.float32, [1], [5]⟩
    let ctx : TreeCacheBuildContext :=
      { isHybridSsm := true, effectiveChunkedPrefillSize := some 8192 }
    let cfg : Config := { cache := .build ctx, ppMaxMicroBatchSize := 4 }
    let source := SnapshotSource.always
      { convStates := [tensor], temporalStates := tensor, fillIds := some [1, 2] }
    let events : List (Event IntTensor) :=
      [.generate { rid := "a", inputIds := [7, 8] },
        .prefill { offers := [{ verdict := .admitted none true }] },
        .restore source { rid := some "w" } "new", .generate { rid := "w", inputIds := [3, 4] }]
    ∃ state, run cfg Model.appending (.initial 3 [spec] spec 2) events = .ok state ∧
      let s : Scheduling IntTensor := ⟨state, state.lastBatch⟩
      let restored := s.handleRestoreSnapshot cfg source { rid := some "w" } "new"
      s.inFlight.map (·.rid) = ["a", "a"] ∧ restored.2.any (·.success) = true ∧
        s.SparesInFlight restored.1 := by
  intro spec tensor ctx cfg source events
  obtain ⟨state, completed, rids, success, distinct, numbered, waits⟩ :
      ∃ state, run cfg Model.appending (.initial 3 [spec] spec 2) events = .ok state ∧
        let s : Scheduling IntTensor := ⟨state, state.lastBatch⟩
        let restored := s.handleRestoreSnapshot cfg source { rid := some "w" } "new"
        s.inFlight.map (·.rid) = ["a", "a"] ∧ restored.2.any (·.success) = true ∧
          (state.requests.map (·.uid)).Nodup ∧ (∀ a ∈ state.requests, a.uid < state.nextUid) ∧
          ∀ req ∈ s.findRequestByRid "w", ∀ other ∈ s.curBatch ++ s.lastReqs,
            other.uid ≠ req.uid := by decide +kernel
  refine ⟨state, completed, rids, success, ?_⟩
  have inv := run_reaches_invariant cfg Model.appending 3 [spec] spec 2 events state completed
  have consistent : Consistent (⟨state, state.lastBatch⟩ : Scheduling IntTensor) := by
    refine .of_invariant inv ?_ distinct numbered
    intro a member
    exact mem_append_left _ (mem_append_left _ member)
  apply (restore_spares_in_flight_iff cfg _ consistent source _ "new").mpr
  rintro req slot snapshot fillIds targets ⟨other, member, same⟩
  exact absurd same (waits req targets.found other member)

/-- A restore for a request that has just been prefilled replaces its ids and its state. -/
theorem restore_overwrites_last_batch :
    let spec : TensorSpec := ⟨.float32, [1]⟩
    let tensor : IntTensor := ⟨.float32, [1], [5]⟩
    let ctx : TreeCacheBuildContext :=
      { isHybridSsm := true, effectiveChunkedPrefillSize := some 8192 }
    let cfg : Config := { cache := .build ctx, ppMaxMicroBatchSize := 4 }
    let source := SnapshotSource.always
      { convStates := [tensor], temporalStates := tensor, fillIds := some [1, 2] }
    let events : List (Event IntTensor) :=
      [.generate { rid := "a", inputIds := [7, 8] },
        .prefill { offers := [{ verdict := .admitted none true }] }]
    ∃ state, run cfg Model.appending (.initial 3 [spec] spec 2) events = .ok state ∧
      let s : Scheduling IntTensor := ⟨state, state.lastBatch⟩
      let restored := s.handleRestoreSnapshot cfg source { rid := some "a" } "new"
      s.inFlight.map (·.originInputIds) = [[7, 8], [7, 8]] ∧
        restored.1.inFlight.map (·.originInputIds) = [[1, 2], [1, 2]] ∧
        ¬ s.SparesInFlight restored.1 := by
  intro spec tensor ctx cfg source events
  obtain ⟨state, completed, before, after, req, flying, req', member, same, differs⟩ :
      ∃ state, run cfg Model.appending (.initial 3 [spec] spec 2) events = .ok state ∧
        let s : Scheduling IntTensor := ⟨state, state.lastBatch⟩
        let restored := s.handleRestoreSnapshot cfg source { rid := some "a" } "new"
        s.inFlight.map (·.originInputIds) = [[7, 8], [7, 8]] ∧
          restored.1.inFlight.map (·.originInputIds) = [[1, 2], [1, 2]] ∧
          ∃ req ∈ s.inFlight, ∃ req' ∈ restored.1.objects,
            req'.uid = req.uid ∧ req'.fillIds ≠ req.fillIds := by decide +kernel
  refine ⟨state, completed, before, after, ?_⟩
  intro spares
  exact differs (spares.ids req flying req' member same).1

end Scheduling

end Engram.Scheduler
