import Engram.Scheduler.Accounting

/-!
# The iterations account for every slot

The transfers of an iteration: stashing and merging, admission, allocation, the
forward pass, and the processing of the results.
-/

namespace Engram.Scheduler

open Engram.Lib Engram.Lib.Transition Engram.Memory Engram.Restore Engram.Snapshot List

variable {τ : Type} {req : Req} {cache : TreeCache} {locked : List Nat} {mem mem' : Memory τ}
  {reqs reqs' : List Req} {R : Req → Req → Prop} {kept : Nat → Prop} {pool : MambaPool τ}
  {slot : Nat}

/-! ### The start of an iteration -/

variable {s : State τ} {cfg : Config} {P : Fault → Prop} (tolerates : Tolerates P)

theorem abortOnWaitingTimeout_accounts (cfg : Config) (sound : s.Sound) :
    Accounts cfg s (abortOnWaitingTimeout cfg s) := by
  have parts := filter_append_perm (timedOut cfg s.clock) s.waitingQueue
  constructor
  · refine (Moves.refl s.mem s.accounted).perm (.refl _) ?_
    have counts := perm_iff_count.mp parts
    simp only [State.accounted, State.requests, State.inFlight, abortOnWaitingTimeout,
      perm_iff_count, count_append] at counts ⊢
    intro other
    have here := counts other
    omega
  · exact Nat.le_refl _
  · refine ⟨?_, sound.placed, sound.chunked⟩
    intro req member
    exact sound.waiting req (mem_filter.mp member).1

theorem track_sameMemory (req : Req) (trackSeqlen : Option Nat) :
    req.SameMemory (req.track trackSeqlen) := by
  unfold Req.track
  split <;> exact ⟨rfl, rfl, rfl, rfl, rfl⟩

def State.begun (cfg : Config) (s : State τ) (mem : Memory τ) (change : Stashing) : State τ :=
  mergeLastBatch { abortOnWaitingTimeout cfg s with
    mem, chunkedReq := s.chunkedReq.map (·.stashed change) }

include tolerates in
theorem beginIteration_begun (cfg : Config) (sound : s.Sound) (stash : Stash) :
    Ends P (fun s' => ∃ mem change, s' = s.begun cfg mem change ∧ s.mem.Spares mem ∧
        Moves cfg.cache s.mem s.chunkedReq.toList mem (s.chunkedReq.map (·.stashed change)).toList)
      (beginIteration cfg s stash) := by
  unfold beginIteration stashChunkedRequest
  split
  · next none =>
    have none : s.chunkedReq = .none := none
    refine ⟨s.mem, ⟨.none, .none, 0, .none⟩, ?_, fun _ _ => rfl, ?_⟩
    · simp [State.begun, none, abortOnWaitingTimeout]
    · rw [none]
      exact .refl _ _
  next req held =>
  have held : s.chunkedReq = some req := held
  have same := track_sameMemory req stash.trackSeqlen
  obtain ⟨unfinished, placed⟩ := sound.chunked req held
  have unfinished := same.reason.trans unfinished
  rw [bind_assoc]
  refine (cacheUnfinishedReq_moves tolerates _ s.mem unfinished
    ((same.placed placed).slot unfinished) _ _).bind ?_
  rintro ⟨mem, _⟩ - ⟨moves, spares, change, rfl⟩
  have tracked : (req.track stash.trackSeqlen).stashed change = req.stashed change := by
    unfold Req.track
    split <;> rfl
  simp only [tracked] at moves ⊢
  refine ⟨mem, change, ?_, spares, ?_⟩
  · simp [State.begun, held]
  · rw [held]
    exact (same.moves s.mem).trans moves

theorem mergeLastBatch_accounts (sound : s.Sound) : Accounts cfg s (mergeLastBatch s) := by
  have last : ∀ req ∈ s.lastBatch, req.Placed :=
    fun req member => sound.placed req (mem_append_left _ member)
  constructor
  · -- the finished requests of the last batch have given their memory back
    have parts := filter_append_perm (!·.finished) s.lastBatch
    have account : s.accounted.Perm
        ((mergeLastBatch s).accounted ++ s.lastBatch.filter (!!·.finished)) := by
      have counts := perm_iff_count.mp parts
      simp only [State.accounted, State.requests, State.inFlight, mergeLastBatch,
        perm_iff_count, count_append, count_nil] at counts ⊢
      intro other
      have here := counts other
      omega
    refine ((Moves.refl s.mem s.accounted).perm (.refl _) account).forget ?_
    intro req member
    obtain ⟨held, finished⟩ := mem_filter.mp member
    exact (last req held).emptyHanded (by simpa using finished)
  · exact Nat.le_refl _
  · refine ⟨sound.waiting, ?_, sound.chunked⟩
    intro req member
    rcases mem_append.mp member with none | member
    · cases none
    rcases mem_append.mp member with running | merged
    · exact sound.placed req (mem_append_right _ running)
    · exact last req (mem_filter.mp merged).1

theorem begun_accounts (sound : s.Sound) {mem : Memory τ} {change : Stashing}
    (moves : Moves cfg.cache s.mem s.chunkedReq.toList mem
      (s.chunkedReq.map (·.stashed change)).toList) : Accounts cfg s (s.begun cfg mem change) := by
  have timeout := abortOnWaitingTimeout_accounts cfg sound
  have stash : Accounts cfg (abortOnWaitingTimeout cfg s) { abortOnWaitingTimeout cfg s with
      mem, chunkedReq := s.chunkedReq.map (·.stashed change) } := by
    refine ⟨?_, Nat.le_refl _, timeout.sound.waiting, timeout.sound.placed, ?_⟩
    · have moved := moves.within ((abortOnWaitingTimeout cfg s).waitingQueue ++ s.lastBatch ++
        s.runningBatch) (abortOnWaitingTimeout cfg s).dropped
      simpa only [State.accounted, State.requests, State.inFlight, abortOnWaitingTimeout,
        append_assoc] using moved
    · intro other found
      obtain ⟨req, held, rfl⟩ := Option.map_eq_some_iff.mp found
      obtain ⟨reason, placed⟩ := sound.chunked req held
      exact ⟨reason, placed.row, placed.slot⟩
  exact (timeout.trans stash).trans (mergeLastBatch_accounts stash.sound)

include tolerates in
theorem beginIteration_accounts (cfg : Config) (sound : s.Sound) (stash : Stash) :
    Ends P (fun s' => Accounts cfg s s' ∧ s'.lastBatch = []) (beginIteration cfg s stash) := by
  refine (beginIteration_begun tolerates cfg sound stash).mono ?_
  rintro _ ⟨mem, change, rfl, -, moves⟩
  exact ⟨begun_accounts sound moves, rfl⟩

/-! ### Admission -/

theorem revertMambaIdx_moves (cache : TreeCache) (mem : Memory τ) (queued : req.Queued) :
    Moves cache mem [req] (revertMambaIdx mem req).1 [(revertMambaIdx mem req).2] ∧
      (revertMambaIdx mem req).2.Queued := by
  unfold revertMambaIdx
  split
  · exact ⟨.refl _ _, queued⟩
  · next slot named =>
    refine ⟨moves_single ?_ rfl rfl rfl (fun _ => id) id, queued⟩
    intro other
    have counted := (mem.freeSlot_takes slot).count other
    simp only [Req.slots, queued.1, Option.isNone_none, if_true, Req.named, named,
      Req.trackBufferToFree, queued.2.2, Option.toList, append_nil, count_nil]
    exact counted.symm

theorem truncate_sameMemory (req : Req) (chunk : Option Nat) :
    req.SameMemory (req.truncate chunk) := by
  unfold Req.truncate
  split
  · exact ⟨rfl, rfl, rfl, rfl, rfl⟩
  · split
    · exact ⟨rfl, rfl, rfl, rfl, rfl⟩
    · exact ⟨rfl, rfl, rfl, rfl, rfl⟩

include tolerates in
theorem admitLoop_moves (cache : TreeCache) (limit : Nat) (locked : List Nat) (mem : Memory τ)
    {canRun queue : List Req} (queued : ∀ req ∈ queue, req.Queued)
    (running : ∀ req ∈ canRun, req.finishedReason = none) (offers : List Offer) :
    Ends P (fun out => Moves cache mem (canRun ++ queue) out.1 (out.2.1 ++ out.2.2) ∧
        (∀ req ∈ out.2.1, req.finishedReason = none) ∧ (∀ req ∈ out.2.2, req.Queued) ∧
        canRun <+: out.2.1)
      (admitLoop cache limit locked mem canRun queue offers) := by
  refine (admitLoop_induction (motive := fun now running waiting _ =>
    Moves cache mem (canRun ++ queue) now (running ++ waiting) ∧
      (∀ req ∈ running, req.finishedReason = none) ∧ (∀ req ∈ waiting, req.Queued) ∧
      canRun <+: running) ?_ ⟨.refl _ _, running, queued, prefix_rfl⟩).mono
        fun _ kept => kept.elim fun _ => id
  rintro now canRun' req queue' offer _ ⟨moves, running, queued, extended⟩
  obtain ⟨head, tail⟩ := forall_mem_cons.mp queued
  refine (initNextRoundInput_moves tolerates _ now head.1 offer.hit).mono ?_
  rintro ⟨matched, started⟩ ⟨inits, unfinished, row, buffer⟩
  -- the request looked at stands in front of the rest of the queue
  have middle := inits.within canRun' queue'
  simp only [append_assoc, singleton_append] at middle
  have looked := moves.trans middle
  refine ⟨fun _ => ?_, fun _ chunk => ?_⟩
  · -- refused: it stays in its place, without the slot that the lookup gave it
    obtain ⟨reverted, stays⟩ := revertMambaIdx_moves cache matched
      ⟨unfinished, row.trans head.2.1, buffer.trans head.2.2⟩
    have middle := reverted.within canRun' queue'
    simp only [append_assoc, singleton_append] at middle
    exact ⟨looked.trans middle, running, forall_mem_cons.mpr ⟨stays, tail⟩, extended⟩
  -- admitted: cutting the chunk and locking the node leave its memory alone
  have same : started.SameMemory
      ({ started with lockedSlot := offer.hit.node cache now }.truncate chunk) := by
    have cut := truncate_sameMemory
      { started with lockedSlot := offer.hit.node cache now } chunk
    exact ⟨cut.slot, cut.buffer, cut.reason, cut.row, cut.uid⟩
  refine ⟨looked.trans ((same.moves matched).within canRun' queue' |>.perm (by simp) (.refl _)),
    ?_, tail, extended.trans (prefix_append ..)⟩
  intro other member
  rcases mem_append.mp member with old | new
  · exact running other old
  · rw [mem_singleton.mp new]
    exact same.reason.trans unfinished

/-! ### Allocation -/

theorem assignRows_moves (cache : TreeCache) {rows rows' : List Nat} (mem : Memory τ)
    (assigned : assignRows rows reqs = some (rows', reqs')) :
    Moves cache { mem with freeRows := rows } reqs { mem with freeRows := rows' } reqs' ∧
      List.Forall₂ (fun req req' => ∃ row, req' = { req with reqPoolIdx := some row })
        reqs reqs' := by
  induction reqs generalizing rows reqs' with
  | nil =>
    cases assigned
    exact ⟨.refl _ _, .nil⟩
  | cons req reqs ih =>
    unfold assignRows at assigned
    split at assigned
    · next held =>
      obtain ⟨⟨left, rest⟩, tail, eq⟩ := Option.map_eq_some_iff.mp assigned
      cases eq
      obtain ⟨moves, origin⟩ := ih tail
      obtain ⟨row, named⟩ := Option.isSome_iff_exists.mp held
      refine ⟨(moves.beside [req]).perm (perm_append_singleton _ _)
        (perm_append_singleton _ _), .cons ⟨row, ?_⟩ origin⟩
      rw [← named]
    · next unheld =>
      split at assigned
      · cases assigned
      next row rows =>
      obtain ⟨⟨left, rest⟩, tail, eq⟩ := Option.map_eq_some_iff.mp assigned
      cases eq
      obtain ⟨moves, origin⟩ := ih tail
      -- the row leaves the free rows and stays with the request
      have given : Moves cache { mem with freeRows := row :: rows } [req]
        { mem with freeRows := rows }
          [{ req with reqPoolIdx := some row }] := by
        refine moves_single (fun _ => rfl) rfl ?_ rfl (fun _ => id) id
        have none : req.reqPoolIdx = none := by
          simpa using unheld
        simp [rowsHeld, none]
      exact ⟨(given.cons reqs).trans ((moves.beside [_]).perm (perm_append_singleton _ _)
        (perm_append_singleton _ _)), .cons ⟨row, rfl⟩ origin⟩

/-- The request has kept its slot or, having none, got a new one to be cleared; it may have
    got a ping-pong buffer. -/
def Req.SlotAssigned (req req' : Req) : Prop :=
  ∃ buffer idx, (req.mambaPoolIdx.isSome = true ∧ req' =
      { req with mambaPingPongTrackBuffer := buffer, mambaNextTrackIdx := idx }) ∨
    (req.mambaPoolIdx = none ∧ ∃ slot, req' =
      { req with
        mambaPingPongTrackBuffer := buffer
        mambaNextTrackIdx := idx
        mambaPoolIdx := some slot
        mambaNeedsClear := true })

def Req.slotsWanted (cache : TreeCache) (req : Req) : Nat :=
  req.mambaPoolIdx.elim 1 (fun _ => 0) +
    req.mambaPingPongTrackBuffer.elim cache.trackBufferSize (fun _ => 0)

def slotsWanted (cache : TreeCache) (reqs : List Req) : Nat :=
  (reqs.map (Req.slotsWanted cache)).foldr (· + ·) 0

/-- The assertions of `HybridReqToTokenPool.alloc` are faults that `P` allows. -/
def Short (P : Fault → Prop) : Prop :=
  P .notEnoughMambaSpace ∧ P .notEnoughTrackSpace

theorem Memory.allocSlot_freeSlots {slot : Nat} (allocated : mem.allocSlot = some (slot, mem')) :
    mem.pool.freeSlots.length = mem'.pool.freeSlots.length + 1 := by
  obtain ⟨rest, listed, rfl⟩ := Memory.allocSlot_eq_some allocated
  rw [listed, length_cons]

theorem Memory.allocTrackBuffer_spec (mem : Memory τ)
    (extra : cache.enableMambaExtraBuffer = true) :
    (mem.allocTrackBuffer cache = none → mem.pool.freeSlots.length < cache.trackBufferSize) ∧
    ∀ buffer mem', mem.allocTrackBuffer cache = some (buffer, mem') →
      mem.Takes buffer.slots mem' ∧ buffer.slots.length = cache.trackBufferSize ∧
        mem.pool.freeSlots.length = mem'.pool.freeSlots.length + cache.trackBufferSize := by
  unfold allocTrackBuffer TreeCache.trackBufferSize
  rw [if_pos extra]
  cases first : mem.allocSlot with
  | none =>
    have none : mem.pool.freeSlots = [] := Memory.allocSlot_eq_none_iff.mp first
    cases cache.enableOverlapSchedule <;> simp [none]
  | some taken =>
    obtain ⟨slot, mid⟩ := taken
    have length := Memory.allocSlot_freeSlots first
    have takes := Memory.allocSlot_takes first
    cases overlap : cache.enableOverlapSchedule with
    | false =>
      refine ⟨fun none => by simp at none, ?_⟩
      rintro _ _ ⟨⟩
      exact ⟨takes, rfl, length⟩
    | true =>
      cases second : mid.allocSlot with
      | none =>
        have none : mid.pool.freeSlots = [] := Memory.allocSlot_eq_none_iff.mp second
        simp [second, length, none]
      | some taken' =>
        have length' := Memory.allocSlot_freeSlots second
        refine ⟨fun none => by simp [second] at none, ?_⟩
        intro buffer mem' allocated
        simp only [Option.bind_eq_bind, Option.bind_some, if_true, second] at allocated
        cases allocated
        exact ⟨takes.append (Memory.allocSlot_takes second), rfl, by simp only [if_true]; omega⟩

theorem assignSlot_moves (cache : TreeCache) (mem : Memory τ)
    (unfinished : req.finishedReason = none)
    (short : mem.pool.freeSlots.length < req.mambaPoolIdx.elim 1 (fun _ => 0) →
      P .notEnoughMambaSpace) :
    Ends P (fun out => Moves cache mem [req] out.1 [out.2] ∧
        out.1.pool.cache = mem.pool.cache ∧
        mem.pool.freeSlots.length =
          out.1.pool.freeSlots.length + req.mambaPoolIdx.elim 1 (fun _ => 0) ∧
        ((req.mambaPoolIdx.isSome = true ∧ out.2 = req) ∨ (req.mambaPoolIdx = none ∧
          ∃ slot, out.2 = { req with mambaPoolIdx := some slot, mambaNeedsClear := true })))
      (assignSlot mem req) := by
  unfold assignSlot
  cases named : req.mambaPoolIdx with
  | some slot => exact ⟨.refl _ _, rfl, rfl, .inl ⟨rfl, rfl⟩⟩
  | none =>
    rw [named] at short
    simp only [Option.isSome_none, Bool.false_eq_true, if_false, Option.elim]
    split
    · next exhausted =>
      apply short
      simp [Memory.allocSlot_eq_none_iff.mp exhausted]
    next slot taken allocated =>
    have takes := Memory.allocSlot_takes allocated
    refine ⟨takes.moves_alloc unfinished unfinished ?_ rfl id, takes.cache,
      Memory.allocSlot_freeSlots allocated, .inr ⟨trivial, slot, rfl⟩⟩
    simp [Req.named, Req.trackBufferToFree, named]

theorem assignTrackBuffer_moves (cache : TreeCache) (mem : Memory τ)
    (unfinished : req.finishedReason = none)
    (short : mem.pool.freeSlots.length <
      req.mambaPingPongTrackBuffer.elim cache.trackBufferSize (fun _ => 0) →
        P .notEnoughTrackSpace) :
    Ends P (fun out => Moves cache mem [req] out.1 [out.2] ∧
        out.1.pool.cache = mem.pool.cache ∧
        mem.pool.freeSlots.length = out.1.pool.freeSlots.length +
          req.mambaPingPongTrackBuffer.elim cache.trackBufferSize (fun _ => 0) ∧
        ∃ buffer idx, out.2 =
          { req with mambaPingPongTrackBuffer := buffer, mambaNextTrackIdx := idx })
      (assignTrackBuffer cache mem req) := by
  unfold assignTrackBuffer
  cases held : req.mambaPingPongTrackBuffer with
  | some buffer =>
    simp only [Option.isNone_some, Bool.and_false, Bool.false_eq_true, if_false]
    exact ⟨.refl _ _, rfl, rfl, _, _, rfl⟩
  | none =>
    rw [held] at short
    simp only [Option.isNone_none, Bool.and_true, Option.elim] at short ⊢
    split
    · next extra =>
      obtain ⟨exhausted, allocated⟩ := mem.allocTrackBuffer_spec extra
      split
      · next none => exact short (exhausted none)
      · next buffer taken some =>
        obtain ⟨takes, size, length⟩ := allocated buffer taken some
        refine ⟨takes.moves_alloc unfinished unfinished ?_ rfl ?_, takes.cache, length, _, _, rfl⟩
        · simp only [Req.named, Req.trackBufferToFree, held, append_nil]
          exact perm_append_comm
        · rintro - _ ⟨⟩
          exact size
    · next without =>
      -- without the extra buffer its size is zero
      have off : cache.trackBufferSize = 0 := by simp [TreeCache.trackBufferSize, without]
      exact ⟨.refl _ _, rfl, by simp [off], _, _, rfl⟩

theorem assignSlots_moves (cache : TreeCache) (mem : Memory τ)
    (unfinished : ∀ req ∈ reqs, req.finishedReason = none)
    (short : mem.pool.freeSlots.length < slotsWanted cache reqs → Short P) :
    Ends P (fun out => Moves cache mem reqs out.1 out.2 ∧ out.1.pool.cache = mem.pool.cache ∧
        List.Forall₂ Req.SlotAssigned reqs out.2)
      (assignSlots cache mem reqs) := by
  induction reqs generalizing mem with
  | nil => exact ⟨.refl _ _, rfl, .nil⟩
  | cons req reqs ih =>
    obtain ⟨head, later⟩ := forall_mem_cons.mp unfinished
    simp only [slotsWanted, map_cons, foldr_cons, Req.slotsWanted] at short ih
    unfold assignSlots
    refine (assignSlot_moves cache mem head (fun few => (short (by omega)).1)).bind ?_
    rintro ⟨own, named⟩ - ⟨slot, content, left, assigned⟩
    have kept : named.finishedReason = none ∧
        named.mambaPingPongTrackBuffer = req.mambaPingPongTrackBuffer := by
      rcases assigned with ⟨-, rfl⟩ | ⟨-, _, rfl⟩ <;> exact ⟨head, rfl⟩
    simp only at left
    refine (assignTrackBuffer_moves cache own kept.1 ?_).bind ?_
    · rw [kept.2]
      exact fun few => (short (by omega)).2
    rintro ⟨taken, _⟩ - ⟨track, content', left', buffer, idx, rfl⟩
    rw [kept.2] at left'
    refine (ih taken later (fun few => short (by simp only at left'; omega))).bind ?_
    rintro ⟨mem', rest⟩ - ⟨moves, content'', origin⟩
    refine ⟨((slot.trans track).cons reqs).trans ((moves.beside [_]).perm
      (perm_append_singleton _ _) (perm_append_singleton _ _)),
      content''.trans (content'.trans content), .cons ⟨buffer, idx, ?_⟩ origin⟩
    rcases assigned with ⟨named, rfl⟩ | ⟨none, new, rfl⟩
    · exact .inl ⟨named, rfl⟩
    · exact .inr ⟨none, new, rfl⟩

theorem evictForBatch_rearranged (cache : TreeCache) (locked : List Nat) (mem : Memory τ)
    (numReqs : Nat) (lru : List Nat) :
    mem.Rearranged (evictForBatch cache locked mem numReqs lru) := by
  unfold evictForBatch
  simp only
  split
  · exact (mem.touch_rearranged lru).trans (Memory.evict_rearranged ..)
  · exact .refl mem

theorem evictForKv_rearranged (mem : Memory τ) (locked : List Nat) (eviction : Eviction) :
    mem.Rearranged (mem.evictForKv locked eviction) :=
  (mem.touch_rearranged eviction.lru).trans (Memory.evict_rearranged ..)

/-- What a request of a new batch owes to a request that could run. -/
def Req.Prepared (req req' : Req) : Prop :=
  ∃ row, ({ req with reqPoolIdx := some row } : Req).SlotAssigned req'

theorem Req.Prepared.facts {req' : Req} (prepared : req.Prepared req') :
    req'.finishedReason = req.finishedReason ∧ req'.reqPoolIdx.isSome = true ∧
      req'.mambaPoolIdx.isSome = true ∧ req'.inChunk = req.inChunk := by
  obtain ⟨row, buffer, idx, ⟨named, rfl⟩ | ⟨_, slot, rfl⟩⟩ := prepared
  · exact ⟨rfl, rfl, named, rfl⟩
  · exact ⟨rfl, rfl, rfl, rfl⟩

theorem exists_of_forall₂ (related : List.Forall₂ R reqs reqs') :
    ∀ req' ∈ reqs', ∃ req ∈ reqs, R req req' := by
  induction related with
  | nil => simp
  | cons head _ ih =>
    intro req' member
    rcases mem_cons.mp member with rfl | member
    · exact ⟨_, mem_cons_self, head⟩
    · obtain ⟨req, held, related⟩ := ih req' member
      exact ⟨req, mem_cons_of_mem _ held, related⟩

theorem forall₂_compose {S T : Req → Req → Prop} (compose : ∀ a b c, R a b → S b c → T a c)
    {reqs'' : List Req} (first : List.Forall₂ R reqs reqs')
    (second : List.Forall₂ S reqs' reqs'') : List.Forall₂ T reqs reqs'' := by
  induction first generalizing reqs'' with
  | nil =>
    cases second
    exact .nil
  | cons head _ ih =>
    cases second with
    | cons head' tail' => exact .cons (compose _ _ _ head head') (ih tail')

theorem map_eq_of_forall₂ {α : Type} {f : Req → α} (same : ∀ a b, R a b → f b = f a)
    (related : List.Forall₂ R reqs reqs') :
    reqs'.map f = reqs.map f := by
  induction related with
  | nil => rfl
  | cons head _ ih => rw [map_cons, map_cons, ih, same _ _ head]

include tolerates in
theorem allocReqSlots_moves (cache : TreeCache) (locked : List Nat) (mem : Memory τ)
    (unfinished : ∀ req ∈ reqs, req.finishedReason = none) (lru : List Nat)
    (short : (evictForBatch cache locked mem reqs.length lru).pool.freeSlots.length <
      slotsWanted cache reqs → Short P) :
    Ends P (fun out => Moves cache mem reqs out.1 out.2 ∧ out.1.pool.cache = mem.pool.cache ∧
        List.Forall₂ Req.Prepared reqs out.2)
      (allocReqSlots cache locked mem reqs lru) := by
  unfold allocReqSlots
  simp only
  have evicted := evictForBatch_rearranged cache locked mem reqs.length lru
  split
  · exact tolerates.outOfRequestRows
  next rows placed assigned =>
  obtain ⟨rowMoves, rowOrigin⟩ :=
    assignRows_moves cache (evictForBatch cache locked mem reqs.length lru) assigned
  have unfinished' : ∀ req ∈ placed, req.finishedReason = none := by
    intro req member
    obtain ⟨old, held, row, rfl⟩ := exists_of_forall₂ rowOrigin req member
    exact unfinished old held
  have wanted : slotsWanted cache placed = slotsWanted cache reqs := by
    rw [slotsWanted, slotsWanted]
    congr 1
    refine (map_eq_of_forall₂ ?_ rowOrigin)
    rintro req _ ⟨row, rfl⟩
    rfl
  rw [← wanted] at short
  refine (assignSlots_moves cache { evictForBatch cache locked mem reqs.length lru with
    freeRows := rows } unfinished' short).mono ?_
  rintro out ⟨slotMoves, content, slotOrigin⟩
  refine ⟨((evicted.moves reqs).trans rowMoves).trans slotMoves, content.trans evicted.cache, ?_⟩
  refine forall₂_compose ?_ rowOrigin slotOrigin
  rintro req mid req' ⟨row, rfl⟩ assigned
  exact ⟨row, assigned⟩

/-! ### The forward pass -/

structure Keeps (kept : Nat → Prop) (pool pool' : MambaPool τ) : Prop where
  freeSlots : pool'.freeSlots = pool.freeSlots
  size : pool'.size = pool.size
  cache : ∀ slot, kept slot → pool'.cache slot = pool.cache slot

theorem Keeps.refl (kept : Nat → Prop) (pool : MambaPool τ) : Keeps kept pool pool :=
  ⟨rfl, rfl, fun _ _ => rfl⟩

theorem Keeps.trans {pool' pool'' : MambaPool τ} (first : Keeps kept pool pool')
    (second : Keeps kept pool' pool'') :
    Keeps kept pool pool'' where
  freeSlots := second.freeSlots.trans first.freeSlots
  size := second.size.trans first.size
  cache := fun slot held => (second.cache slot held).trans (first.cache slot held)

theorem keeps_setSlot (pool : MambaPool τ) (slot : Nat) (state : SlotState τ)
    (fits : state.conv.length = pool.convSpecs.length) (written : ¬ kept slot) :
    Keeps kept pool (pool.setSlot slot state fits) where
  freeSlots := rfl
  size := rfl
  cache := by
    intro other held
    refine (pool.agreesOff_setSlot slot state fits).others other ?_
    rintro rfl
    exact written held

theorem keeps_foldl {α : Type} {write : MambaPool τ → α → MambaPool τ} (xs : List α)
    (each : ∀ x ∈ xs, ∀ pool, Keeps kept pool (write pool x)) (pool : MambaPool τ) :
    Keeps kept pool (xs.foldl write pool) := by
  induction xs generalizing pool with
  | nil => exact .refl kept pool
  | cons x xs ih =>
    have first := each x mem_cons_self pool
    have rest := ih (fun y member => each y (mem_cons_of_mem x member)) (write pool x)
    exact first.trans rest

/-- No request of the batch names the slot. -/
def Unnamed (reqs : List Req) (slot : Nat) : Prop :=
  ∀ req ∈ reqs, req.mambaPoolIdx ≠ some slot

theorem unnamed_of_unowned (unfinished : ∀ req ∈ reqs, req.finishedReason = none)
    (unowned : ownersAmong reqs slot = 0) : Unnamed reqs slot := by
  intro req member named
  have owner := ownersAmong_pos member (Req.owns_of_named (unfinished req member) named)
  omega

theorem forwardDecode_keeps (model : Model τ) (reqs : List Req) (pool : MambaPool τ) :
    Keeps (Unnamed reqs) pool (reqs.foldl (forwardDecode model) pool) := by
  apply keeps_foldl
  intro req member pool
  unfold forwardDecode
  split
  · exact .refl _ pool
  · next slot named =>
    apply keeps_setSlot
    intro unnamed
    exact unnamed req member named

theorem Keeps.moves (keeps : Keeps (Unnamed reqs) mem.pool pool)
    (unfinished : ∀ req ∈ reqs, req.finishedReason = none) :
    Moves cache mem reqs { mem with pool } reqs where
  slots := by
    constructor
    · intro slot
      simp only [holding, Memory.count, keeps.freeSlots]
    · intro slot unowned
      simp only [holding] at unowned
      exact keeps.cache slot (unnamed_of_unowned unfinished (by omega))
  rows := rfl
  size := keeps.size
  tree := fun _ => id
  buffers := id

section Forward

variable [Torch τ] {reqs : List Req}

theorem forwardExtend_keeps (model : Model τ) (reqs : List Req) (pool : MambaPool τ) :
    Keeps (Unnamed reqs) pool (reqs.foldl (forwardExtend model) pool) := by
  apply keeps_foldl
  intro req member pool
  unfold forwardExtend
  split
  · exact .refl _ pool
  · next slot named =>
    apply keeps_setSlot
    intro unnamed
    exact unnamed req member named

def Settled (reqs : List Req) (slot : Nat) : Prop :=
  ∀ req ∈ reqs, req.mambaPoolIdx = some slot →
    req.mambaCowSrcIndex = none ∧ req.mambaNeedsClear = false

omit [Torch τ] in
theorem mem_clearSlots (member : slot ∈ clearSlots reqs) :
    ¬ Settled reqs slot := by
  obtain ⟨req, held, collected⟩ := mem_filterMap.mp member
  intro settled
  split at collected
  · next pending =>
    have clear := (settled req held collected).2
    simp [clear] at pending
  · cases collected

omit [Torch τ] in
theorem mem_cowPairs {src dst : Nat} (member : (src, dst) ∈ cowPairs reqs) :
    ¬ Settled reqs dst := by
  obtain ⟨req, held, collected⟩ := mem_filterMap.mp member
  intro settled
  split at collected
  · next pending named =>
    cases collected
    have copy := (settled req held named).1
    simp [pending] at copy
  · cases collected

theorem runDeferred_keeps (pool : MambaPool τ) (reqs : List Req) :
    Keeps (Settled reqs) pool (runDeferred pool reqs) := by
  have cleared : Keeps (Settled reqs) pool
      ((clearSlots reqs).foldl MambaPool.clearSlot pool) := by
    apply keeps_foldl
    intro slot member pool
    exact keeps_setSlot pool slot _ _ (mem_clearSlots member)
  refine cleared.trans ⟨rfl, rfl, ?_⟩
  intro slot settled
  have uncopied : (cowPairs reqs).findRev? (·.2 == slot) = none := by
    rw [findRev?_eq_find?_reverse, find?_eq_none]
    rintro ⟨src, dst⟩ member same
    rw [mem_reverse] at member
    simp only [beq_iff_eq] at same
    exact mem_cowPairs member (same ▸ settled)
  simp only [runDeferred, MambaPool.copySlots, uncopied, Option.elim]

omit [Torch τ] in
theorem Keeps.mono {kept' : Nat → Prop} {pool' : MambaPool τ} (keeps : Keeps kept pool pool')
    (fewer : ∀ slot, kept' slot → kept slot) :
    Keeps kept' pool pool' :=
  ⟨keeps.freeSlots, keeps.size, fun slot held => keeps.cache slot (fewer slot held)⟩

end Forward

end Engram.Scheduler
