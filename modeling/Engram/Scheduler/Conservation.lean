import Engram.Scheduler.BatchAccounting

/-!
# Conservation of Mamba slots

Each slot of the pool has exactly one owner: the free list, a node of the tree, a request the
scheduler still holds, or one it has dropped without releasing its memory. Every phase of an
iteration keeps that (`prefill_accounts`, `decode_accounts`).
-/

namespace Engram.Scheduler

open Engram.Lib Engram.Lib.Transition Engram.Memory Engram.Restore Engram.Snapshot List

variable {τ : Type} {cache : TreeCache} {locked : List Nat} {mem mem' : Memory τ} {req req' : Req}
  {outcome : Outcome} {reqs : List Req} {cfg : Config} {s : State τ}

/-! ### Forming a prefill batch -/

variable {P : Fault → Prop} (tolerates : Tolerates P)

theorem startCanRun_sameMemory (req : Req) (chunk : Option Nat) :
    req.SameMemory (req.resetFillIds.truncate chunk) := by
  have cut := truncate_sameMemory req.resetFillIds chunk
  exact ⟨cut.slot, cut.buffer, cut.reason, cut.row, cut.uid⟩

theorem endChunk_sameMemory (req : Req) : req.SameMemory req.endChunk :=
  ⟨rfl, rfl, rfl, rfl, rfl⟩

theorem startCanRun_eq (chunkedReq : Option Req) (chunk : Option Nat) :
    startCanRun chunkedReq chunk =
      chunkedReq.toList.map (fun req => req.resetFillIds.truncate chunk) := by
  cases chunkedReq <;> rfl

theorem calcPriority_perm (order : List Nat) (queue : List Req) :
    (calcPriority order queue).Perm queue :=
  perm_insertionSort _ queue

theorem State.Sound.offered {s : State τ} (sound : s.Sound) (order : List Nat) :
    ∀ req ∈ calcPriority order s.waitingQueue, req.Queued :=
  fun req member => sound.waiting req ((calcPriority_perm _ _).mem_iff.mp member)

structure Req.Ready (req : Req) : Prop where
  unfinished : req.finishedReason = none
  row : req.reqPoolIdx.isSome = true
  slot : req.mambaPoolIdx.isSome = true

theorem Req.Ready.placed (ready : req.Ready) : req.Placed :=
  ⟨by rw [ready.unfinished, ready.row]; rfl, fun _ => ready.slot⟩

theorem Req.Placed.ready (placed : req.Placed) (unfinished : req.finishedReason = none) :
    req.Ready :=
  ⟨unfinished, by rw [placed.row, unfinished]; rfl, placed.slot unfinished⟩

section Prefill

variable [Torch τ] {plan : PrefillPlan}

include tolerates in
theorem prepareForExtend_moves (cfg : Config) (running : List Req) (mem : Memory τ)
    {canRun : List Req} (unfinished : ∀ req ∈ canRun, req.finishedReason = none)
    (short : (evictForBatch cfg.cache (lockedSlots (running ++ canRun)) mem canRun.length
      plan.lru).pool.freeSlots.length < slotsWanted cfg.cache canRun → Short P) :
    Ends P (fun out => Moves cfg.cache mem canRun out.1 out.2 ∧ (∀ req ∈ out.2, req.Ready) ∧
        out.2.countP Req.inChunk = canRun.countP Req.inChunk)
      (prepareForExtend cfg running mem canRun plan) := by
  refine (allocReqSlots_moves tolerates cfg.cache _ mem unfinished plan.lru short).bind ?_
  rintro ⟨allocated, prepared⟩ - ⟨moves, _, origin⟩
  have ready : ∀ req ∈ prepared, req.Ready := by
    intro req member
    obtain ⟨old, held, related⟩ := exists_of_forall₂ origin req member
    obtain ⟨reason, row, slot, _⟩ := related.facts
    exact ⟨reason.trans (unfinished old held), row, slot⟩
  have evicted := evictForKv_rearranged allocated (lockedSlots (running ++ canRun)) plan.kvEviction
  simp only
  generalize allocated.evictForKv (lockedSlots (running ++ canRun)) plan.kvEviction = room
    at evicted ⊢
  -- nothing is pending for a slot that no request of the batch names
  have settled : ∀ slot, Unnamed prepared slot → Settled prepared slot :=
    fun _ unnamed req member named => absurd named (unnamed req member)
  have written : Moves cfg.cache room prepared
      { room with pool := runDeferred room.pool prepared } prepared :=
    ((runDeferred_keeps room.pool prepared).mono settled).moves
      (fun req member => (ready req member).1)
  have same : ∀ req : Req, req.SameMemory req.clearDeferred :=
    fun _ => ⟨rfl, rfl, rfl, rfl, rfl⟩
  have cleared := moves_map cfg.cache same
    { room with pool := runDeferred room.pool prepared } prepared
  refine ⟨((moves.trans (evicted.moves prepared)).trans written).trans cleared, ?_, ?_⟩
  · intro req member
    obtain ⟨old, held, rfl⟩ := mem_map.mp member
    exact ⟨(ready old held).unfinished, (ready old held).row, (ready old held).slot⟩
  · have chunks := congrArg (countP id)
      (map_eq_of_forall₂ (fun _ _ related => related.facts.2.2.2) origin)
    rw [countP_map, countP_map] at chunks
    rw [countP_map]
    exact chunks

/-- What `_get_new_batch_prefill_raw` leaves behind. -/
structure BatchFormed (cfg : Config) (s s' : State τ) (batch : List Req) : Prop where
  moves : Moves cfg.cache s.mem s.accounted s'.mem (s'.accounted ++ batch)
  sound : s'.Sound
  ready : ∀ req ∈ batch, req.Ready
  lastBatch : s'.lastBatch = s.lastBatch
  chunks : batch.countP Req.inChunk ≤ 1
  chunkedReq : batch = [] ∨ s'.chunkedReq = none
  nextUid : s'.nextUid = s.nextUid

omit [Torch τ] in
include tolerates in
/-- The admission loop of an iteration: the chunked request and the waiting queue take
    part, all others stand beside them. -/
theorem admitted_moves (cache : TreeCache) (limit : Nat) {s : State τ} (sound : s.Sound)
    (plan : PrefillPlan) :
    Ends P (fun out => Moves cache s.mem (s.chunkedReq.toList ++ s.waitingQueue) out.1
          (out.2.1 ++ out.2.2) ∧ (∀ req ∈ out.2.1, req.finishedReason = none) ∧
        (∀ req ∈ out.2.2, req.Queued) ∧ (out.2.1 = [] → s.chunkedReq = none))
      (admitLoop cache limit s.locked s.mem (startCanRun s.chunkedReq plan.chunk)
        (calcPriority plan.order s.waitingQueue) plan.offers) := by
  have started : ∀ req ∈ startCanRun s.chunkedReq plan.chunk, req.finishedReason = none := by
    intro req member
    rw [startCanRun_eq] at member
    obtain ⟨old, held, rfl⟩ := mem_map.mp member
    have unfinished := (sound.chunked old (Option.mem_toList.mp held)).1
    exact (startCanRun_sameMemory old plan.chunk).reason.trans unfinished
  refine (admitLoop_moves tolerates cache limit s.locked s.mem (sound.offered plan.order) started
    plan.offers).mono ?_
  rintro out ⟨looped, unfinished, stay, extended⟩
  refine ⟨?_, unfinished, stay, ?_⟩
  · have chunk := (moves_map cache (fun req => startCanRun_sameMemory req plan.chunk) s.mem
      s.chunkedReq.toList).beside s.waitingQueue
    rw [← startCanRun_eq] at chunk
    exact (chunk.perm (.refl _) (.append_left _ (calcPriority_perm _ _).symm)).trans looped
  · intro nobody
    rw [nobody, prefix_nil, startCanRun_eq, map_eq_nil_iff, Option.toList_eq_nil_iff] at extended
    exact extended

include tolerates in
theorem getNewBatchPrefill_formed (cfg : Config) {s : State τ} (sound : s.Sound)
    (plan : PrefillPlan) (short : ∀ mem canRun queue,
      admitLoop cfg.cache (getNumAllocatableReqs cfg s) s.locked s.mem
          (startCanRun s.chunkedReq plan.chunk) (calcPriority plan.order s.waitingQueue)
          plan.offers = .ok (mem, canRun, queue) →
        (evictForBatch cfg.cache (lockedSlots (s.runningBatch ++ canRun)) mem canRun.length
          plan.lru).pool.freeSlots.length < slotsWanted cfg.cache canRun → Short P) :
    Ends P (fun out => BatchFormed cfg s out.1 out.2) (getNewBatchPrefill cfg s plan) := by
  unfold getNewBatchPrefill
  split
  · exact ⟨by simpa using .refl _ _, sound, by simp, rfl, by simp, .inl rfl, rfl⟩
  refine (admitted_moves tolerates cfg.cache _ sound plan).bind ?_
  rintro ⟨mem, canRun, queue⟩ admitted ⟨begun, unfinished, stay, unchunked⟩
  simp only at begun unfinished stay unchunked ⊢
  split
  · next nobody =>
    -- nobody is admitted: only the slots of waiting requests may have changed
    have none : canRun = [] := isEmpty_iff.mp nobody
    refine ⟨?_, ⟨stay, sound.placed, sound.chunked⟩, by simp, rfl, by simp, .inl rfl, rfl⟩
    have moved := begun.beside (s.lastBatch ++ s.runningBatch ++ s.dropped)
    refine moved.perm ?_ ?_
    · simp only [State.accounted, State.requests, State.inFlight]
      grind
    · simp only [State.accounted, State.requests, State.inFlight, none, unchunked none]
      grind
  split
  · exact tolerates.chunkedReqPresent
  next atMostOne =>
  refine (prepareForExtend_moves tolerates cfg s.runningBatch mem unfinished
    (short mem canRun queue admitted)).bind ?_
  rintro ⟨prepared, formed⟩ - ⟨allocated, ready, chunks⟩
  have few : formed.countP Req.inChunk ≤ 1 := by
    simp only at chunks
    omega
  refine ⟨?_, ⟨stay, sound.placed, by simp⟩, ready, rfl, few, .inr rfl, rfl⟩
  -- admission and allocation one after the other, all other requests beside them
  have moved := (begun.trans (allocated.beside queue)).beside
    (s.lastBatch ++ s.runningBatch ++ s.dropped)
  refine moved.perm ?_ ?_
  · simp only [State.accounted, State.requests, State.inFlight]
    grind
  · simp only [State.accounted, State.requests, State.inFlight, Option.toList]
    grind

end Prefill

/-! ### Results -/

/-- What the processing of one result may do. A request that goes on keeps its slot and
    what is pending for it. -/
structure Processed (cache : TreeCache) (mem : Memory τ) (req : Req) (mem' : Memory τ)
    (req' : Req) : Prop where
  moves : Moves cache mem [req] mem' [req']
  spares : mem.Spares mem'
  placed : req'.Placed
  uid : req'.uid = req.uid
  goesOn : req'.finishedReason = none → req'.mambaPoolIdx = req.mambaPoolIdx ∧
    req'.mambaCowSrcIndex = req.mambaCowSrcIndex ∧ req'.mambaNeedsClear = req.mambaNeedsClear ∧
    req'.mambaHasRestoredState = req.mambaHasRestoredState

include tolerates in
theorem processed_finished (mem : Memory τ) (ready : req.Ready)
    (finished : (req.accept outcome).finished = true) (mambaExist : Bool) :
    Ends P (fun out => Processed cache mem req out.1 out.2)
      (releaseKvCache cache mem (req.accept outcome) true mambaExist) := by
  obtain ⟨reason, finishedLen, toFinish, accepted⟩ := req.accept_eq outcome
  have ended : reason.isSome = true := by simpa [accepted, Req.finished] using finished
  have slot : (req.accept outcome).mambaPoolIdx.isSome = true := by
    rw [accepted]
    exact ready.slot
  have row : (req.accept outcome).reqPoolIdx.isSome = true := by
    rw [accepted]
    exact ready.row
  refine (releaseKvCache_releases tolerates mem (fun _ => slot) (fun none => by simp [none] at row)
    true mambaExist).mono ?_
  rintro ⟨mem', req'⟩ ⟨released, row, -⟩
  rw [accepted] at released
  have same : req'.finishedReason = reason := released.reason
  have notNone : req'.finishedReason ≠ none := by
    rw [same]
    exact Option.isSome_iff_ne_none.mp ended
  have gone : req'.finishedReason.isSome = true := by
    rw [same]
    exact ended
  refine ⟨released.moves ready.1 rfl rfl (Req.slots_of_finished gone) rfl ?_,
    fun slot _ => congrFun released.cache slot,
    ⟨?_, fun none => absurd none notNone⟩, released.uid, fun none => absurd none notNone⟩
  · unfold Req.Fits
    rw [released.buffer]
    exact id
  rw [row, same, Option.isNone_eq_false_iff.mpr ended]
  rfl

theorem processed_accepted (mem : Memory τ) (ready : req.Ready)
    (goesOn : ¬ (req.accept outcome).finished = true) :
    Processed cache mem req mem (req.accept outcome) ∧ (req.accept outcome).Ready := by
  obtain ⟨reason, finishedLen, toFinish, accepted⟩ := req.accept_eq outcome
  rw [accepted] at goesOn ⊢
  have unfinished : reason = none := by simpa [Req.finished] using goesOn
  subst unfinished
  have stays : ({ req with
      outputIds := req.outputIds ++ [outcome.token], finishedReason := none,
      finishedLen, toFinish } : Req).Ready :=
    ⟨rfl, ready.row, ready.slot⟩
  exact ⟨⟨moves_relabel mem rfl rfl ready.1.symm rfl, fun _ _ => rfl, stays.placed, rfl,
    fun _ => ⟨rfl, rfl, rfl, rfl⟩⟩, stays⟩

theorem Processed.of_track {trackSeqlen : Option Nat}
    (processed : Processed cache mem (req.track trackSeqlen) mem' req') :
    Processed cache mem req mem' req' := by
  have same := track_sameMemory req trackSeqlen
  refine ⟨(same.moves mem).trans processed.moves, processed.spares, processed.placed,
    processed.uid.trans same.uid, ?_⟩
  intro unfinished
  have goesOn := processed.goesOn unfinished
  unfold Req.track at goesOn
  split at goesOn <;> exact goesOn

theorem Req.Ready.track (ready : req.Ready) (trackSeqlen : Option Nat) :
    (req.track trackSeqlen).Ready := by
  have same := track_sameMemory req trackSeqlen
  exact ((same.placed ready.placed).ready (same.reason.trans ready.unfinished))

include tolerates in
theorem processPrefill_processed (locked : List Nat) (mem : Memory τ) (req : Req)
    (outcome : Outcome) (ready : req.Ready) :
    Ends P (fun out => Processed cache mem req out.1 out.2)
      (processPrefill cache locked mem req outcome) := by
  have ready := ready.track outcome.trackSeqlen
  unfold processPrefill
  simp only
  split
  · next finished => exact (processed_finished tolerates mem ready finished _).mono fun _ =>
      .of_track
  · next goesOn =>
    obtain ⟨accepted, stays⟩ := processed_accepted mem ready goesOn
    refine (cacheUnfinishedReq_moves tolerates locked mem stays.unfinished stays.slot _ _).mono ?_
    rintro ⟨mem', _⟩ ⟨moves, spares, change, rfl⟩
    exact .of_track ⟨accepted.moves.trans moves, spares,
      ⟨accepted.placed.row, accepted.placed.slot⟩, accepted.uid, accepted.goesOn⟩

include tolerates in
theorem processDecode_processed (locked : List Nat) (mem : Memory τ) (req : Req)
    (outcome : Outcome) (ready : req.Ready) :
    Ends P (fun out => Processed cache mem req out.1 out.2)
      (processDecode cache locked mem req outcome) := by
  have ready := ready.track outcome.trackSeqlen
  unfold processDecode
  simp only
  split
  · next finished => exact (processed_finished tolerates mem ready finished _).mono fun _ =>
      .of_track
  · next goesOn => exact .of_track (processed_accepted mem ready goesOn).1

theorem processEach_moves
    {process : List Nat → Memory τ → Req → Outcome → Except Fault (Memory τ × Req)}
    (each : ∀ locked mem req outcome, req.Ready →
      Ends P (fun out => Processed cache mem req out.1 out.2) (process locked mem req outcome))
    (locked : List Nat) (mem : Memory τ) (ready : ∀ req ∈ reqs, req.Ready)
    (outcomes : List Outcome) :
    Ends P (fun out => Moves cache mem reqs out.1 out.2 ∧ ∀ req ∈ out.2, req.Placed)
      (processEach process locked mem [] reqs outcomes) := by
  refine (processEach_induction (motive := fun now processed left =>
    Moves cache mem reqs now (processed ++ left) ∧ (∀ req ∈ processed, req.Placed) ∧
      ∀ req ∈ left, req.Ready) ?_ locked outcomes ⟨.refl _ _, by simp, ready⟩).mono ?_
  · rintro now processed req left _ _ ⟨moves, placed, ready⟩
    obtain ⟨head, later⟩ := forall_mem_cons.mp ready
    refine (each _ now req _ head).mono ?_
    rintro ⟨next, done⟩ step
    have front := step.moves.within processed left
    simp only [append_assoc] at front
    refine ⟨by simpa using moves.trans front, ?_, later⟩
    simpa [or_imp, forall_and] using ⟨placed, step.placed⟩
  · rintro out ⟨moves, placed, -⟩
    exact ⟨by simpa using moves, placed⟩

theorem head?_toList_of_length_le_one (short : reqs.length ≤ 1) :
    reqs.head?.toList = reqs := by
  cases reqs with
  | nil => rfl
  | cons req reqs =>
    cases reqs with
    | nil => rfl
    | cons next reqs => simp at short

include tolerates in
theorem runPrefill_moves [Torch τ] (model : Model τ) {batch : List Req} (sound : s.Sound)
    (merged : s.lastBatch = []) (unchunked : s.chunkedReq = none) (ready : ∀ req ∈ batch, req.Ready)
    (chunks : batch.countP Req.inChunk ≤ 1) (outcomes : List Outcome) :
    Ends P (fun s' => Moves cfg.cache s.mem (s.accounted ++ batch) s'.mem s'.accounted ∧
        s'.nextUid = s.nextUid ∧ s'.Sound)
      (runPrefill cfg model s batch outcomes) := by
  refine (processEach_moves (processPrefill_processed tolerates) _ _
    (fun req member => ready req (mem_filter.mp member).1) outcomes).bind ?_
  rintro ⟨mem, last⟩ - ⟨results, placed⟩
  have forward : Moves cfg.cache s.mem batch (s.mem.forwardExtend model batch) batch :=
    (forwardExtend_keeps model batch s.mem.pool).moves (fun req member => (ready req member).1)
  have few : (middleChunks batch).length ≤ 1 := by
    rw [middleChunks, length_map, ← countP_eq_length_filter]
    exact chunks
  have middle : Moves cfg.cache mem (batch.filter Req.inChunk) mem (middleChunks batch) :=
    moves_map cfg.cache endChunk_sameMemory mem (batch.filter Req.inChunk)
  have parts := filter_append_perm Req.inChunk batch
  refine ⟨?_, rfl, ?_⟩
  · -- the requests with a complete prompt go through the results, the other one waits
    have complete := results.beside (batch.filter Req.inChunk)
    have waits := (middle.beside last).perm perm_append_comm perm_append_comm
    have joined := (forward.perm (.refl _) (parts.symm.trans perm_append_comm)).trans
      (complete.trans waits)
    refine (joined.beside s.accounted).perm perm_append_comm ?_
    simp only [State.accounted, State.requests, State.inFlight, merged, unchunked,
      head?_toList_of_length_le_one few, Option.toList_none]
    grind
  refine ⟨sound.waiting, ?_, ?_⟩
  · intro req member
    rcases mem_append.mp member with last | running
    · exact placed req last
    · exact sound.placed req (mem_append_right _ running)
  · intro req found
    obtain ⟨old, held, rfl⟩ := mem_map.mp (mem_of_head? found)
    have facts := ready old (mem_filter.mp held).1
    exact ⟨facts.unfinished, (endChunk_sameMemory old).placed facts.placed⟩

include tolerates in
theorem prefill_accounts [Torch τ] (cfg : Config) (model : Model τ) (sound : s.Sound)
    (plan : PrefillPlan)
    (short : ∀ begun mem canRun queue, beginIteration cfg s plan.stash = .ok begun →
      admitLoop cfg.cache (getNumAllocatableReqs cfg begun) begun.locked begun.mem
          (startCanRun begun.chunkedReq plan.chunk) (calcPriority plan.order begun.waitingQueue)
          plan.offers = .ok (mem, canRun, queue) →
        (evictForBatch cfg.cache (lockedSlots (begun.runningBatch ++ canRun)) mem canRun.length
          plan.lru).pool.freeSlots.length < slotsWanted cfg.cache canRun → Short P) :
    Ends P (Accounts cfg s) (prefill cfg model s plan) := by
  refine (beginIteration_accounts tolerates cfg sound plan.stash).bind ?_
  rintro begun begin_ ⟨started, merged⟩
  refine (getNewBatchPrefill_formed tolerates cfg started.sound plan
    (fun mem canRun queue => short begun mem canRun queue begin_)).bind ?_
  rintro ⟨mid, batch⟩ - formed
  simp only at formed ⊢
  split
  · next nobody =>
    have none : batch = [] := isEmpty_iff.mp nobody
    have moves := formed.moves
    rw [none, append_nil] at moves
    exact started.trans ⟨moves, formed.nextUid.ge, formed.sound⟩
  · next somebody =>
    have unchunked : mid.chunkedReq = none := by
      rcases formed.chunkedReq with none | unchunked
      · simp [none] at somebody
      · exact unchunked
    refine (runPrefill_moves tolerates model formed.sound (formed.lastBatch.trans merged) unchunked
      formed.ready formed.chunks plan.outcomes).mono ?_
    rintro s' ⟨moves, uids, sound'⟩
    exact started.trans ⟨formed.moves.trans moves, (uids.trans formed.nextUid).ge, sound'⟩

/-! ### Decode -/

/-- What a retracted request is left with. -/
structure Req.Cleared (req : Req) : Prop where
  queued : req.Queued
  slot : req.mambaPoolIdx = none
  flag : req.mambaHasRestoredState = false

include tolerates in
theorem releaseReqs_moves (mem : Memory τ) (ready : ∀ req ∈ reqs, req.Ready) :
    Ends P (fun out => Moves cache mem reqs out.1 out.2 ∧ (∀ req ∈ out.2, req.Cleared) ∧
        out.1.pool.cache = mem.pool.cache ∧ out.2.map (·.uid) = reqs.map (·.uid))
      (releaseReqs cache mem reqs) := by
  induction reqs generalizing mem with
  | nil => exact ⟨.refl _ _, by simp, rfl, rfl⟩
  | cons req reqs ih =>
    obtain ⟨head, later⟩ := forall_mem_cons.mp ready
    refine (releaseKvCache_releases tolerates mem (fun _ => head.slot)
      (fun none => by simpa [none] using head.row) false true).bind ?_
    rintro ⟨freed, released⟩ - ⟨releases, row, -⟩
    refine (ih freed later).bind ?_
    rintro ⟨left, others⟩ - ⟨moves, empty, same, uids⟩
    have given : Moves cache mem [req] freed [released.resetForRetract] :=
      releases.moves head.1 rfl rfl (Req.slots_of_none rfl rfl) rfl (fun _ => Req.fits_of_none rfl)
    refine ⟨(given.cons reqs).trans ((moves.beside [_]).perm (perm_append_singleton _ _)
      (perm_append_singleton _ _)), ?_, same.trans releases.cache, ?_⟩
    · exact forall_mem_cons.mpr ⟨⟨⟨releases.reason.trans head.1, row, rfl⟩, rfl, rfl⟩, empty⟩
    · simpa using ⟨releases.uid, uids⟩

include tolerates in
theorem requeue_accounts (sound : s.Sound) (cleared : ∀ req ∈ reqs, req.Cleared) :
    Ends P (fun s' => Accounts cfg s s' ∧ s'.runningBatch = s.runningBatch)
      (requeue cfg s reqs) := by
  induction reqs generalizing s with
  | nil => exact ⟨⟨.refl _ _, Nat.le_refl _, sound⟩, rfl⟩
  | cons req reqs ih =>
    obtain ⟨head, later⟩ := forall_mem_cons.mp cleared
    refine (addRequestToQueue_enqueued tolerates cfg s req).bind ?_
    intro mid _ enqueued
    have first : Accounts cfg s mid := enqueued.accounts
      (head.queued.moves_enter head.slot s.mem s.accounted) head.queued (Nat.le_refl _) sound
    refine (ih first.sound later).mono ?_
    rintro s' ⟨accounts, running⟩
    exact ⟨first.trans accounts, running.trans enqueued.runningBatch⟩

theorem retractSplit_perm (running : List Req) (retract : Option (Nat × Bool)) :
    ((retractSplit running retract).1 ++ (retractSplit running retract).2.1 ++
      (retractSplit running retract).2.2).Perm running := by
  unfold retractSplit
  split
  · simp
  next count abortLast =>
  have sorted : (retractOrder running).Perm running := perm_insertionSort _ running
  have parts := take_append_drop (max 1 ((retractOrder running).length - count))
    (retractOrder running)
  have joined : ((retractOrder running).take (max 1 ((retractOrder running).length - count)) ++
      ((retractOrder running).drop (max 1 ((retractOrder running).length - count))).reverse).Perm
      running := by
    refine List.Perm.trans ?_ sorted
    conv_rhs => rw [← parts]
    exact (reverse_perm _).append_left _
  simp only
  split
  · exact perm_append_comm.trans joined
  · simp only [append_nil]
    exact joined

/-- Whatever the decode batch does with them, its unfinished requests have a row and a slot. -/
theorem retractSplit_ready (sound : s.Sound) (retract : Option (Nat × Bool)) :
    let parts := retractSplit (s.runningBatch.filter (!·.finished)) retract
    ∀ req ∈ parts.1 ++ parts.2.1 ++ parts.2.2, req.Ready := by
  intro parts req member
  obtain ⟨held, unfinished⟩ := mem_filter.mp ((retractSplit_perm _ _).mem_iff.mp member)
  have placed := sound.placed req (mem_append_right _ held)
  exact placed.ready (by simpa [Req.finished] using unfinished)

include tolerates in
theorem updateRunningBatch_accounts (sound : s.Sound) (plan : DecodePlan) :
    Ends P (fun s' => Accounts cfg s s' ∧ ∀ req ∈ s'.runningBatch, req.Ready)
      (updateRunningBatch cfg s plan) := by
  have perm := retractSplit_perm (s.runningBatch.filter (!·.finished)) plan.retract
  have ready := retractSplit_ready sound plan.retract
  unfold updateRunningBatch
  generalize retractSplit (s.runningBatch.filter (!·.finished)) plan.retract = parts
    at perm ready ⊢
  obtain ⟨stay, retracted, aborted⟩ := parts
  simp only at perm ready ⊢
  refine (releaseReqs_moves tolerates _ (fun req member => ready req (by simp [member]))).bind ?_
  rintro ⟨freed, retracted'⟩ - ⟨retract, queued, -⟩
  refine (releaseReqs_moves tolerates _ (fun req member => ready req (by simp [member]))).bind ?_
  rintro ⟨left, aborted'⟩ - ⟨abort, gone, -⟩
  have evicted := evictForKv_rearranged s.mem s.locked plan.kvEviction
  -- what is retracted, aborted or finished leaves without memory
  have finished := filter_append_perm (!·.finished) s.runningBatch
  have batch : Moves cfg.cache s.mem s.runningBatch left stay := by
    have released : Moves cfg.cache s.mem (stay ++ retracted ++ aborted) left
        (stay ++ retracted' ++ aborted') := by
      refine (evicted.moves _).trans ((retract.within stay aborted).trans ?_)
      simpa only [append_nil] using abort.within (stay ++ retracted') []
    have unfinished : Moves cfg.cache s.mem (s.runningBatch.filter (!·.finished)) left stay := by
      refine (released.perm perm (List.Perm.of_eq (append_assoc ..))).forget ?_
      intro req member
      have cleared := (mem_append.mp member).elim (queued req) (gone req)
      exact cleared.queued.emptyHanded cleared.slot
    refine ((unfinished.beside (s.runningBatch.filter (!!·.finished))).perm finished
      (.refl _)).forget ?_
    intro req member
    obtain ⟨held, done⟩ := mem_filter.mp member
    exact (sound.placed req (mem_append_right _ held)).emptyHanded (by simpa using done)
  have mid outbox : Accounts cfg s { s with mem := left, runningBatch := stay, outbox } := by
    constructor
    · have moved := batch.within (s.waitingQueue ++ s.lastBatch)
        (s.chunkedReq.toList ++ s.dropped)
      simpa only [State.accounted, State.requests, State.inFlight, append_assoc] using moved
    · exact Nat.le_refl _
    · refine ⟨sound.waiting, ?_, sound.chunked⟩
      intro req member
      rcases mem_append.mp member with last | stays
      · exact sound.placed req (mem_append_left _ last)
      · exact (ready req (by simp [stays])).placed
  -- the retracted requests go back to the queue
  refine (requeue_accounts tolerates (mid _).sound queued).mono ?_
  rintro s' ⟨accounts, kept⟩
  refine ⟨(mid _).trans accounts, ?_⟩
  rw [kept]
  intro req member
  exact ready req (by simp [member])

include tolerates in
theorem runDecode_accounts (model : Model τ) (sound : s.Sound)
    (ready : ∀ req ∈ s.runningBatch, req.Ready) (outcomes : List Outcome) :
    Ends P (Accounts cfg s) (runDecode cfg model s outcomes) := by
  refine (processEach_moves (processDecode_processed tolerates) _ _ ready outcomes).bind ?_
  rintro ⟨mem, running⟩ - ⟨results, placed⟩
  have forward : Moves cfg.cache s.mem s.runningBatch (s.mem.forwardDecode model s.runningBatch)
      s.runningBatch :=
    (forwardDecode_keeps model s.runningBatch s.mem.pool).moves
      (fun req member => (ready req member).1)
  constructor
  · have moved := (forward.trans results).within (s.waitingQueue ++ s.lastBatch)
      (s.chunkedReq.toList ++ s.dropped)
    simpa only [State.accounted, State.requests, State.inFlight, append_assoc] using moved
  · exact Nat.le_refl _
  · refine ⟨sound.waiting, ?_, sound.chunked⟩
    intro req member
    rcases mem_append.mp member with last | runs
    · exact sound.placed req (mem_append_left _ last)
    · exact placed req runs

include tolerates in
theorem decode_accounts (cfg : Config) (model : Model τ) (sound : s.Sound) (plan : DecodePlan) :
    Ends P (Accounts cfg s) (decode cfg model s plan) := by
  refine (beginIteration_accounts tolerates cfg sound plan.stash).bind ?_
  rintro begun - ⟨started, -⟩
  refine (updateRunningBatch_accounts tolerates started.sound plan).bind ?_
  rintro updated - ⟨running, ready⟩
  refine (runDecode_accounts tolerates model running.sound ready plan.outcomes).mono ?_
  intro s' decoded
  exact (started.trans running).trans decoded

end Engram.Scheduler
