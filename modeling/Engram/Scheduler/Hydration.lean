import Engram.Scheduler.Carrying

/-!
# Hydration survives scheduling

From the event that hydrates a request on, as long as no admission refuses the request and no
lookup finds a Mamba state for it, the state in its slot is the staged one until the first
prefill, and afterwards the staged one advanced by its own tokens. Here each event is shown to
keep this (`State.Tracks`).
-/

namespace Engram.Scheduler

open Engram.Lib Engram.Lib.Transition Engram.Memory Engram.Restore Engram.Snapshot List

variable {τ : Type} {model : Model τ} {lineage : Lineage model} {uid size rows : Nat}
  {s s' : State τ} {req : Req} {mem : Memory τ} {reqs : List Req} {cfg : Config}

structure State.Tracks (lineage : Lineage model) (uid : Nat) (s : State τ) : Prop where
  waiting : ∀ req ∈ s.waitingQueue, req.Carries uid lineage.waiting s.mem
  batches : ∀ req ∈ s.lastBatch ++ s.runningBatch, req.Carries uid lineage.running s.mem
  chunked : ∀ req ∈ s.chunkedReq, req.Carries uid lineage.chunked s.mem

theorem State.mem_accounted_of_waiting (member : req ∈ s.waitingQueue) :
    req ∈ s.accounted := by
  simp [State.accounted, State.requests, member]

theorem State.mem_accounted_of_batch (member : req ∈ s.lastBatch ++ s.runningBatch) :
    req ∈ s.accounted := by
  simp only [State.accounted, State.requests, State.inFlight, mem_append]
  exact .inl (.inr (.inl (mem_append.mp member)))

theorem State.mem_accounted_of_chunked (member : req ∈ s.chunkedReq) :
    req ∈ s.accounted := by
  simp only [State.accounted, State.requests, State.inFlight, mem_append, Option.mem_toList]
  exact .inl (.inr (.inr member))

theorem State.Tracks.beside (tracks : s.Tracks lineage uid) (conserved : s.Conserved)
    {cache : TreeCache} (moves : Moves cache s.mem [] mem reqs) :
    ({ s with mem } : State τ).Tracks lineage uid := by
  have exclusive : Exclusive s.mem ([] ++ s.accounted) := Exclusive.of_conserved conserved
  constructor
  · exact fun req member => (tracks.waiting req member).beside
      (State.mem_accounted_of_waiting member) exclusive moves
  · exact fun req member => (tracks.batches req member).beside
      (State.mem_accounted_of_batch member) exclusive moves
  · exact fun req member => (tracks.chunked req member).beside
      (State.mem_accounted_of_chunked member) exclusive moves

theorem State.Tracks.of_cache (tracks : s.Tracks lineage uid)
    (same : mem.pool.cache = s.mem.pool.cache) : ({ s with mem } : State τ).Tracks lineage uid where
  waiting := fun req member => (tracks.waiting req member).of_cache same
  batches := fun req member => (tracks.batches req member).of_cache same
  chunked := fun req member => (tracks.chunked req member).of_cache same

/-- A new request joins the queue, or is turned away; another one may have to leave. -/
theorem Enqueued.tracks (enqueued : Enqueued s req s') (tracks : s.Tracks lineage uid)
    (new : req.Carries uid lineage.waiting s.mem) :
    s'.Tracks lineage uid := by
  obtain ⟨priority, time, _, queue⟩ := enqueued.joined
  constructor
  · intro other member
    rw [enqueued.mem]
    rcases queue other member with rfl | old
    · exact new.relabel rfl id id rfl rfl rfl (fun _ => id)
    · exact tracks.waiting other old
  · rw [enqueued.lastBatch, enqueued.runningBatch, enqueued.mem]
    exact tracks.batches
  · rw [enqueued.chunkedReq, enqueued.mem]
    exact tracks.chunked

/-! ### The start of an iteration -/

theorem beginIteration_tracks {stash : Stash} (tracks : s.Tracks lineage uid) (sound : s.Sound)
    (conserved : s.Conserved) (completed : beginIteration cfg s stash = .ok s') :
    s'.Tracks lineage uid ∧ ∀ req ∈ s'.chunkedReq, req.Carries uid lineage.stashed s'.mem := by
  obtain ⟨mem, lock, rfl, spares, -⟩ :=
    (beginIteration_begun tolerates_all cfg sound stash).yields completed
  have exclusive := Exclusive.of_conserved conserved
  -- only the chunked request changes, and the stash spares every slot of a request
  have stashed : ∀ req ∈ (s.begun cfg mem lock).chunkedReq,
      req.Carries uid lineage.stashed mem := by
    intro req member
    obtain ⟨old, held, rfl⟩ := Option.map_eq_some_iff.mp member
    refine ((tracks.chunked old held).spared (State.mem_accounted_of_chunked held) exclusive
      spares).relabel rfl id id rfl rfl rfl (fun state holds => ⟨holds, ?_⟩)
    exact length_pos_iff.mpr holds.2.2
  refine ⟨⟨?_, ?_, fun req member => (stashed req member).mono (fun _ holds => holds.1)⟩, stashed⟩
  · intro req member
    have held := (mem_filter.mp member).1
    exact (tracks.waiting req held).spared (State.mem_accounted_of_waiting held) exclusive spares
  intro req member
  have held : req ∈ s.lastBatch ++ s.runningBatch := by
    simp only [State.begun, mergeLastBatch, mem_append, mem_filter] at member ⊢
    tauto
  exact (tracks.batches req held).spared (State.mem_accounted_of_batch held) exclusive spares

/-! ### Prefill -/

section Prefill

variable [Torch τ] {cfg : Config} {s s' : State τ} {plan : PrefillPlan} {batch : List Req}

theorem getNewBatchPrefill_tracks (tracks : s.Tracks lineage uid) (sound : s.Sound)
    (conserved : s.Conserved)
    (stashed : ∀ req ∈ s.chunkedReq, req.Carries uid lineage.stashed s.mem)
    (undisturbed : ∀ pair ∈ (calcPriority plan.order s.waitingQueue).zip plan.offers,
      Undisturbed cfg.cache uid pair.1 pair.2)
    (completed : getNewBatchPrefill cfg s plan = .ok (s', batch)) :
    s'.Tracks lineage uid ∧ ∀ req ∈ batch, req.Carries uid lineage.formed s'.mem := by
  unfold getNewBatchPrefill at completed
  split at completed
  · cases completed
    exact ⟨tracks, by simp⟩
  obtain ⟨⟨mem, canRun, queue⟩, loop, rest⟩ := bind_ok completed
  obtain ⟨moves, unfinished, _⟩ :=
    (admitted_moves tolerates_all cfg.cache _ sound plan).yields loop
  -- a stashed chunk goes on from the state it has left
  have started : ∀ req ∈ startCanRun s.chunkedReq plan.chunk,
      req.Carries uid lineage.formed s.mem := by
    intro req member
    rw [startCanRun_eq] at member
    obtain ⟨old, held, rfl⟩ := mem_map.mp member
    have goesOn : old.resetFillIds.Carries uid (fun req state => lineage.advanced state ∧
        req.inflightMiddleChunks = 0 ∧ 0 < req.prefixLen) s.mem := by
      refine (stashed old (Option.mem_toList.mp held)).relabel rfl id id rfl rfl rfl ?_
      rintro state ⟨⟨advanced, none, _⟩, later⟩
      exact ⟨advanced, none, later⟩
    refine truncate_carries goesOn plan.chunk ?_
    rintro state ⟨advanced, none, later⟩
    exact ⟨advanced, fun first => absurd first (by omega), none⟩
  -- the admission loop writes no slot
  obtain ⟨formed, waiting, content⟩ := (admitLoop_carries _ _ undisturbed started (fun req member =>
    tracks.waiting req ((calcPriority_perm _ _).mem_iff.mp member))).yields loop
  have batches : ∀ req ∈ s.lastBatch ++ s.runningBatch, req.Carries uid lineage.running mem :=
    fun req member => (tracks.batches req member).of_cache content
  simp only at rest
  split at rest
  · cases rest
    exact ⟨⟨waiting, batches, fun req member => (tracks.chunked req member).of_cache content⟩,
      by simp⟩
  split at rest
  · cases rest
  obtain ⟨⟨prepared, ready⟩, prepare, done⟩ := bind_ok rest
  -- the queue and the batches stand beside the allocation
  have exclusive : Exclusive mem
      (canRun ++ (queue ++ (s.lastBatch ++ s.runningBatch ++ s.dropped))) := by
    have all : Exclusive s.mem (s.chunkedReq.toList ++ s.waitingQueue ++
        (s.lastBatch ++ s.runningBatch ++ s.dropped)) := by
      refine (Exclusive.of_conserved conserved).perm ?_
      simp only [State.accounted, State.requests, State.inFlight]
      grind
    simpa only [append_assoc] using all.moves moves
  have allocated := ((prepareForExtend_moves tolerates_all cfg _ mem unfinished
    (fun _ => ⟨trivial, trivial⟩)).yields prepare).1
  have carried := prepareForExtend_carries exclusive unfinished formed prepare
  cases done
  refine ⟨⟨?_, ?_, by simp⟩, carried⟩
  · exact fun req member => (waiting req member).beside (by simp [member]) exclusive allocated
  · intro req member
    refine (batches req member).beside ?_ exclusive allocated
    simp only [mem_append] at member ⊢
    exact .inr (.inl member)

theorem runPrefill_tracks {outcomes : List Outcome} (tracks : s.Tracks lineage uid)
    (exclusive : Exclusive s.mem (batch ++ s.accounted)) (ready : ∀ req ∈ batch, req.Ready)
    (formed : ∀ req ∈ batch, req.Carries uid lineage.formed s.mem)
    (completed : runPrefill cfg model s batch outcomes = .ok s') : s'.Tracks lineage uid := by
  obtain ⟨⟨mem, last⟩, processed, rest⟩ := bind_ok completed
  have unfinished : ∀ req ∈ batch, req.finishedReason = none :=
    fun req member => (ready req member).unfinished
  have forward : Moves cfg.cache s.mem batch (s.mem.forwardExtend model batch) batch :=
    (forwardExtend_keeps model batch s.mem.pool).moves unfinished
  have forwarded := forwardExtend_carries exclusive.left unfinished formed
  -- after the forward pass: the complete prompts, the middle chunk, and all others
  have parts := filter_append_perm (!·.inChunk) batch
  have exclusive' : Exclusive (s.mem.forwardExtend model batch)
      (batch.filter (!·.inChunk) ++ (batch.filter (!!·.inChunk) ++ s.accounted)) := by
    refine (exclusive.moves forward).perm ?_
    rw [← append_assoc]
    exact parts.symm.append_right _
  obtain ⟨accepted, beside⟩ := (processEach_carries (processPrefill_processed tolerates_all) _
    (fun req member => ready req (mem_filter.mp member).1) outcomes exclusive'
    (fun req member => (forwarded req (mem_filter.mp member).1).mono
      (fun _ holds => holds.1))).yields processed
  have bystander : ∀ {Q : Req → SlotState τ → Prop} {req : Req}, req ∈ s.accounted →
      req.Carries uid Q s.mem → req.Carries uid Q mem :=
    fun member carries => beside _ _ (by simp [member]) (carries.beside member exclusive forward)
  cases rest
  constructor
  · exact fun req member => bystander (State.mem_accounted_of_waiting member)
      (tracks.waiting req member)
  · intro req member
    rcases mem_append.mp member with done | running
    · exact accepted req done
    · have member : req ∈ s.lastBatch ++ s.runningBatch := mem_append_right _ running
      exact bystander (State.mem_accounted_of_batch member) (tracks.batches req member)
  · intro req found
    obtain ⟨old, held, rfl⟩ := mem_map.mp (mem_of_head? found)
    obtain ⟨inBatch, middle⟩ := mem_filter.mp held
    -- the middle chunk has advanced, and waits to be stashed
    have waits := beside _ old (mem_append_left s.accounted
      (mem_filter.mpr ⟨inBatch, by simpa using middle⟩)) (forwarded old inBatch)
    refine waits.relabel rfl id id rfl rfl rfl ?_
    rintro state ⟨advanced, chunk⟩
    obtain ⟨one, nonempty⟩ := chunk middle
    exact ⟨advanced, by simp [Req.endChunk, one], nonempty⟩

/-- The queue that the admission loop of an iteration goes through. -/
def offeredQueue (cfg : Config) (s : State τ) (plan : PrefillPlan) : List Req :=
  calcPriority plan.order (abortOnWaitingTimeout cfg s).waitingQueue

theorem prefillBatch_tracks {begun : State τ} (tracks : s.Tracks lineage uid)
    (inv : s.Invariant cfg size rows)
    (undisturbed : ∀ pair ∈ (offeredQueue cfg s plan).zip plan.offers,
      Undisturbed cfg.cache uid pair.1 pair.2)
    (started : beginIteration cfg s plan.stash = .ok begun)
    (formed : getNewBatchPrefill cfg begun plan = .ok (s', batch)) :
    s'.Tracks lineage uid ∧ (∀ req ∈ batch, req.Carries uid lineage.formed s'.mem) ∧
      BatchFormed cfg begun s' batch ∧ Exclusive s'.mem (batch ++ s'.accounted) := by
  obtain ⟨accounts, _⟩ :=
    (beginIteration_accounts tolerates_all cfg inv.sound plan.stash).yields started
  obtain ⟨begunTracks, stashed⟩ := beginIteration_tracks tracks inv.sound inv.conserved started
  have conserved := accounts.conserved inv.conserved
  have batchFormed := (getNewBatchPrefill_formed tolerates_all cfg accounts.sound plan
    (fun _ _ _ _ _ => ⟨trivial, trivial⟩)).yields formed
  have undisturbed : ∀ pair ∈ (calcPriority plan.order begun.waitingQueue).zip plan.offers,
      Undisturbed cfg.cache uid pair.1 pair.2 := by
    obtain ⟨mem, lock, rfl, -⟩ :=
      (beginIteration_begun tolerates_all cfg inv.sound plan.stash).yields started
    exact undisturbed
  obtain ⟨tracks', carried⟩ := getNewBatchPrefill_tracks begunTracks accounts.sound conserved
    stashed undisturbed formed
  refine ⟨tracks', carried, batchFormed, ?_⟩
  have exclusive : Exclusive begun.mem (begun.accounted ++ []) := by
    rw [append_nil]
    exact Exclusive.of_conserved conserved
  refine (exclusive.moves batchFormed.moves).perm ?_
  rw [append_nil]
  exact perm_append_comm

theorem prefill_tracks (tracks : s.Tracks lineage uid) (inv : s.Invariant cfg size rows)
    (undisturbed : ∀ pair ∈ (offeredQueue cfg s plan).zip plan.offers,
      Undisturbed cfg.cache uid pair.1 pair.2) (completed : prefill cfg model s plan = .ok s') :
    s'.Tracks lineage uid := by
  obtain ⟨begun, started, rest⟩ := bind_ok completed
  obtain ⟨⟨mid, batch⟩, formed, rest⟩ := bind_ok rest
  obtain ⟨tracks', carried, batchFormed, exclusive⟩ :=
    prefillBatch_tracks tracks inv undisturbed started formed
  simp only at rest
  split at rest
  · cases rest
    exact tracks'
  · exact runPrefill_tracks tracks' exclusive batchFormed.ready carried rest

end Prefill

/-! ### Decode -/

theorem requeue_tracks (tracks : s.Tracks lineage uid) (cleared : ∀ req ∈ reqs, req.Cleared)
    (completed : requeue cfg s reqs = .ok s') : s'.Tracks lineage uid := by
  induction reqs generalizing s with
  | nil =>
    cases completed
    exact tracks
  | cons req reqs ih =>
    obtain ⟨mid, added, rest⟩ := bind_ok completed
    obtain ⟨head, later⟩ := forall_mem_cons.mp cleared
    have new : req.Carries uid lineage.waiting s.mem := by
      intro _ _ flagged
      rw [head.flag] at flagged
      cases flagged
    exact ih (((addRequestToQueue_enqueued tolerates_all cfg s req).yields added).tracks tracks new)
      later rest

theorem updateRunningBatch_tracks {plan : DecodePlan} (tracks : s.Tracks lineage uid)
    (sound : s.Sound) (completed : updateRunningBatch cfg s plan = .ok s') :
    s'.Tracks lineage uid := by
  have perm := retractSplit_perm (s.runningBatch.filter (!·.finished)) plan.retract
  have ready := retractSplit_ready sound plan.retract
  unfold updateRunningBatch at completed
  generalize retractSplit (s.runningBatch.filter (!·.finished)) plan.retract = parts
    at completed perm ready
  obtain ⟨stay, retracted, aborted⟩ := parts
  obtain ⟨⟨freed, retracted'⟩, first, rest⟩ := bind_ok completed
  obtain ⟨⟨left, aborted'⟩, second, rest⟩ := bind_ok rest
  obtain ⟨-, cleared, content, -⟩ := (releaseReqs_moves tolerates_all _
    (fun req member => ready req (by simp [member]))).yields first
  obtain ⟨-, -, content', -⟩ := (releaseReqs_moves tolerates_all _
    (fun req member => ready req (by simp [member]))).yields second
  have evicted := evictForKv_rearranged s.mem s.locked plan.kvEviction
  have same : left.pool.cache = s.mem.pool.cache := (content'.trans content).trans evicted.cache
  refine requeue_tracks ⟨?_, ?_, ?_⟩ cleared rest
  · exact (tracks.of_cache same).waiting
  · intro req member
    refine (tracks.of_cache same).batches req (mem_append.mpr ?_)
    rcases mem_append.mp member with last | stays
    · exact .inl last
    · have held : req ∈ stay ++ retracted ++ aborted := by simp [stays]
      exact .inr (mem_filter.mp (perm.mem_iff.mp held)).1
  · exact (tracks.of_cache same).chunked

theorem decode_tracks {plan : DecodePlan} (tracks : s.Tracks lineage uid)
    (inv : s.Invariant cfg size rows) (completed : decode cfg model s plan = .ok s') :
    s'.Tracks lineage uid := by
  obtain ⟨begun, started, rest⟩ := bind_ok completed
  obtain ⟨updated, update, rest⟩ := bind_ok rest
  obtain ⟨⟨mem, running⟩, processed, rest⟩ := bind_ok rest
  obtain ⟨accounts, _⟩ :=
    (beginIteration_accounts tolerates_all cfg inv.sound plan.stash).yields started
  obtain ⟨accounts', ready⟩ :=
    (updateRunningBatch_accounts tolerates_all accounts.sound plan).yields update
  have conserved := accounts'.conserved (accounts.conserved inv.conserved)
  have tracks' := updateRunningBatch_tracks
    (beginIteration_tracks tracks inv.sound inv.conserved started).1 accounts.sound update
  have unfinished : ∀ req ∈ updated.runningBatch, req.finishedReason = none :=
    fun req member => (ready req member).unfinished
  have exclusive : Exclusive updated.mem (updated.runningBatch ++
      (updated.waitingQueue ++ updated.lastBatch ++ updated.chunkedReq.toList ++
        updated.dropped)) := by
    refine (Exclusive.of_conserved conserved).perm ?_
    simp only [State.accounted, State.requests, State.inFlight]
    grind
  have forward : Moves cfg.cache updated.mem updated.runningBatch
      (updated.mem.forwardDecode model updated.runningBatch) updated.runningBatch :=
    (forwardDecode_keeps model updated.runningBatch updated.mem.pool).moves unfinished
  have forwarded : ∀ req ∈ updated.runningBatch, req.Carries uid lineage.running
      (updated.mem.forwardDecode model updated.runningBatch) :=
    forwardDecode_carries exclusive.left unfinished
      (fun req member => tracks'.batches req (mem_append_right _ member))
  obtain ⟨accepted, beside⟩ := (processEach_carries (processDecode_processed tolerates_all) _ ready
    plan.outcomes (exclusive.moves forward) forwarded).yields processed
  -- the running requests have taken their step, the others stand beside it
  have bystander : ∀ {Q : Req → SlotState τ → Prop} {req : Req},
      req ∈ updated.waitingQueue ++ updated.lastBatch ++ updated.chunkedReq.toList ++
        updated.dropped → req.Carries uid Q updated.mem → req.Carries uid Q mem :=
    fun member carries => beside _ _ member (carries.beside member exclusive forward)
  cases rest
  constructor
  · exact fun req member => bystander (by simp [member]) (tracks'.waiting req member)
  · intro req member
    rcases mem_append.mp member with last | done
    · exact bystander (by simp [last]) (tracks'.batches req (mem_append_left _ last))
    · exact accepted req done
  · intro req member
    refine bystander ?_ (tracks'.chunked req member)
    have held : req ∈ updated.chunkedReq.toList := Option.mem_toList.mpr member
    simp [held]

/-! ### Requests between the iterations -/

theorem abortRequest_tracks {recv : AbortReq} (tracks : s.Tracks lineage uid) (sound : s.Sound)
    (completed : abortRequest cfg s recv = .ok s') :
    s'.Tracks lineage uid := by
  obtain ⟨⟨mem, queue⟩, aborted, rest⟩ := bind_ok completed
  obtain ⟨_, -, -, same, rfl⟩ :=
    (abortQueued_moves tolerates_all cfg recv s.mem sound.waiting).yields aborted
  have tracks' := tracks.of_cache same
  -- a mark to finish leaves number, slot and flag alone
  have marked : ∀ {Q : Req → SlotState τ → Prop} {req : Req} (_ : ∀ state, Q req state →
      Q (recv.mark req) state), req.Carries uid Q mem → (recv.mark req).Carries uid Q mem := by
    intro Q req content carries
    unfold AbortReq.mark at content ⊢
    split at content
    · next hit =>
      rw [if_pos hit]
      exact carries.relabel rfl id id rfl rfl rfl content
    · next missed =>
      rw [if_neg missed]
      exact carries
  cases rest
  constructor
  · exact fun req member => tracks'.waiting req (mem_filter.mp member).1
  · intro req member
    rw [← map_append] at member
    obtain ⟨old, held, rfl⟩ := mem_map.mp member
    exact marked (fun _ => id) (tracks'.batches old held)
  · intro req found
    obtain ⟨old, held, rfl⟩ := Option.map_eq_some_iff.mp found
    refine marked ?_ (tracks'.chunked old held)
    unfold AbortReq.mark
    split
    · exact fun _ => id
    · exact fun _ => id

section Handlers

variable [Torch τ]

theorem maybeHydrate_eq (p : PendingRestores τ) (pool : Option (MambaPool τ)) (req : Req) :
    ∃ slot flag conversation, (maybeHydrateFromPendingRestore p pool req).2.2.2 =
      { req with
        mambaPoolIdx := slot, mambaHasRestoredState := flag, conversationId := conversation } := by
  unfold maybeHydrateFromPendingRestore
  split
  · exact ⟨_, _, _, rfl⟩
  split
  · exact ⟨_, _, _, rfl⟩
  split
  · exact ⟨_, _, _, rfl⟩
  split
  · exact ⟨_, _, _, rfl⟩
  · exact ⟨_, _, _, rfl⟩

/-- A generate request other than `uid` changes nothing for `uid`; if it is `uid`, the new
    request has to carry its state into the queue. -/
theorem handleGenerateRequest_tracks {recv : GenerateReq} (tracks : s.Tracks lineage uid)
    (conserved : s.Conserved) (new : ∀ result pending pool req,
      maybeHydrateFromPendingRestore s.pending (some s.mem.pool) (recv.toReq s.nextUid) =
        (result, pending, pool, req) →
      req.Carries uid lineage.waiting { s.mem with pool := pool.getD s.mem.pool })
    (completed : handleGenerateRequest cfg s recv = .ok s') : s'.Tracks lineage uid := by
  unfold handleGenerateRequest at completed
  generalize attempted : maybeHydrateFromPendingRestore s.pending (some s.mem.pool)
    (recv.toReq s.nextUid) = outcome at completed
  obtain ⟨result, pending, pool, req⟩ := outcome
  obtain ⟨moves, _⟩ := maybeHydrate_moves s.pending s.mem _ ⟨rfl, rfl, rfl⟩ rfl [] result pending
    pool req attempted
  have mid := tracks.beside conserved (moves : Moves cfg.cache ..)
  have carries := new result pending pool req attempted
  refine ((addRequestToQueue_enqueued tolerates_all cfg _ _).yields completed).tracks
    ⟨mid.waiting, mid.batches, mid.chunked⟩ ?_
  split
  · exact carries.relabel rfl id id rfl rfl rfl (fun _ => id)
  · obtain ⟨ids, reason, same⟩ := validated_eq cfg recv req
    rw [same]
    exact carries.relabel rfl id id rfl rfl rfl (fun _ => id)

theorem Restored.tracks {recv : RestoreReq} (restored : Restored cfg s recv s')
    (tracks : s.Tracks lineage uid) (conserved : s.Conserved) (idle : recv.createNewRequest = true ∨
      recv.rid.all (fun rid => (s.findIdle rid).isNone) = true)
    (fresh : uid < s.nextUid ∨ s'.nextUid ≤ uid) : s'.Tracks lineage uid := by
  have notLive : ∀ {rid : String} {req : Req}, recv.createNewRequest = false →
      recv.rid = some rid → s.findIdle rid = some req → False := by
    intro rid req existing named found
    simp [existing, named, found] at idle
  cases restored with
  | unchanged => exact tracks
  | staged pending => exact ⟨tracks.waiting, tracks.batches, tracks.chunked⟩
  | givenBack writes =>
    exact tracks.beside conserved (writes.moves_back [] : Moves cfg.cache ..)
  | created _ writes named queued number added =>
    have enqueued := (addRequestToQueue_enqueued tolerates_all cfg _ _).yields added
    have apart : uid < s.nextUid ∨ s.nextUid + 1 ≤ uid := by
      rw [enqueued.nextUid] at fresh
      exact fresh
    have joined := tracks.beside conserved
      (writes.moves_new queued named [] : Moves cfg.cache ..)
    -- the new request has a number of its own
    refine enqueued.tracks ⟨joined.waiting, joined.batches, joined.chunked⟩ (.of_other ?_)
    omega
  | broken existing named found => exact (notLive existing named found).elim
  | live existing named found => exact (notLive existing named found).elim

end Handlers

end Engram.Scheduler
