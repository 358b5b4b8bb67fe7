import Engram.Scheduler.Hydration

/-!
# Hydrated requests over whole runs

Before a request arrives nothing is announced under its number. The event that hydrates it puts
the staged state into its slot, and from there on every allowed event keeps what the flag
announces (`hydration_survives_scheduling`).
-/

namespace Engram.Scheduler

open Engram.Lib Engram.Lib.Transition Engram.Memory Engram.Restore Engram.Snapshot List

variable {τ : Type} {model : Model τ} {lineage : Lineage model} {uid : Nat} {s : State τ}

/-! ### Before the hydration -/

/-- No state is given to the request yet. -/
def Lineage.empty (model : Model τ) : Lineage model where
  fresh := fun _ => False
  advanced := fun _ => False
  ofFresh := fun _ absurd => absurd
  forward := fun _ _ absurd => absurd

/-- No request of the list has the number, is unfinished and flagged. -/
def Unflagged (uid : Nat) (reqs : List Req) : Prop :=
  ∀ req ∈ reqs, req.uid = uid → req.finishedReason = none → req.mambaHasRestoredState = false

theorem Unflagged.tracks (unflagged : Unflagged uid s.requests) :
    s.Tracks lineage uid := by
  have carries : ∀ {Q : Req → SlotState τ → Prop} {req : Req}, req ∈ s.requests →
      req.Carries uid Q s.mem := by
    intro Q req member same unfinished flagged
    rw [unflagged req member same unfinished] at flagged
    cases flagged
  constructor
  · exact fun req member => carries (by simp [State.requests, member])
  · intro req member
    refine carries ?_
    simp only [State.requests, State.inFlight, mem_append]
    exact .inr (.inl (mem_append.mp member))
  · intro req member
    refine carries ?_
    simp only [State.requests, State.inFlight, mem_append, Option.mem_toList]
    exact .inr (.inr member)

theorem State.Tracks.carries (tracks : s.Tracks lineage uid) {req : Req}
    (member : req ∈ s.requests) :
    req.Carries uid lineage.running s.mem := by
  simp only [State.requests, State.inFlight, mem_append, Option.mem_toList] at member
  rcases member with waiting | (last | running) | chunked
  · exact (tracks.waiting req waiting).mono (fun state holds => lineage.ofFresh state holds.1)
  · exact tracks.batches req (mem_append_left _ last)
  · exact tracks.batches req (mem_append_right _ running)
  · exact (tracks.chunked req chunked).mono (fun _ holds => holds.1)

theorem tracks_empty_iff :
    s.Tracks (Lineage.empty model) uid ↔ Unflagged uid s.requests := by
  constructor
  · intro tracks req member same unfinished
    by_contra flagged
    obtain ⟨slot, _, _, _, absurd⟩ := tracks.carries member same unfinished (by simpa using flagged)
    exact absurd
  · exact Unflagged.tracks

/-! ### Steps -/

/-- An event leaves the hydrated request alone: it does not refuse its admission, finds no
    Mamba state for it, and applies no restore to a request in the scheduler. -/
def LeavesAlone (cfg : Config) (uid : Nat) (s : State τ) : Event τ → Prop
  | .prefill plan => ∀ pair ∈ (offeredQueue cfg s plan).zip plan.offers,
      Undisturbed cfg.cache uid pair.1 pair.2
  | .restore _ recv _ => recv.createNewRequest = true ∨
      recv.rid.all (fun rid => (s.findIdle rid).isNone) = true
  | _ => True

instance (cfg : Config) (uid : Nat) (s : State τ) : (event : Event τ) →
    Decidable (LeavesAlone cfg uid s event)
  | .prefill plan => inferInstanceAs (Decidable (∀ pair ∈ (offeredQueue cfg s plan).zip plan.offers,
      Undisturbed cfg.cache uid pair.1 pair.2))
  | .restore _ _ _ => inferInstanceAs (Decidable (_ ∨ _))
  | .advance _ | .generate _ | .abort _ | .decode _ => instDecidableTrue

section Steps

variable [Torch τ] {cfg : Config} {s s' : State τ} {event : Event τ} {size rows : Nat}

theorem handleGenerateRequest_nextUid {recv : GenerateReq}
    (completed : handleGenerateRequest cfg s recv = .ok s') : s'.nextUid = s.nextUid + 1 := by
  exact ((addRequestToQueue_enqueued tolerates_all _ _ _).yields completed).nextUid

theorem step_nextUid_le (inv : s.Invariant cfg size rows)
    (stepped : step cfg model s event = .ok s') : s.nextUid ≤ s'.nextUid :=
  ((step_accounts tolerates_all cfg model event inv.sound inv.conserved
    (fun _ _ _ _ _ _ _ _ _ => ⟨trivial, trivial⟩)).yields stepped).uids

theorem step_tracks (tracks : s.Tracks lineage uid) (inv : s.Invariant cfg size rows)
    (alone : LeavesAlone cfg uid s event) (fresh : uid < s.nextUid ∨ s'.nextUid ≤ uid)
    (stepped : step cfg model s event = .ok s') : s'.Tracks lineage uid := by
  cases event with
  | advance seconds =>
    cases stepped
    exact ⟨tracks.waiting, tracks.batches, tracks.chunked⟩
  | restore source recv newRid =>
    cases stepped
    have restored := handleRestoreSnapshot_restored cfg s source recv newRid
    exact restored.tracks tracks inv.conserved alone fresh
  | generate recv =>
    refine handleGenerateRequest_tracks tracks inv.conserved ?_ stepped
    intro result pending pool req attempted
    obtain ⟨slot, flag, conversation, same⟩ := maybeHydrate_eq s.pending (some s.mem.pool)
      (recv.toReq s.nextUid)
    rw [attempted] at same
    refine .of_other ?_
    have number : req.uid = s.nextUid := congrArg Req.uid same
    have next := handleGenerateRequest_nextUid stepped
    omega
  | abort recv => exact abortRequest_tracks tracks inv.sound stepped
  | prefill plan => exact prefill_tracks tracks inv alone stepped
  | decode plan => exact decode_tracks tracks inv stepped

/-! ### Requests to come -/

/-- Nothing is announced yet under the numbers that are still to be given out. -/
def State.Ahead (s : State τ) : Prop :=
  ∀ uid, s.nextUid ≤ uid → Unflagged uid s.requests

omit [Torch τ] in
theorem Unflagged.undisturbed (unflagged : Unflagged uid s.requests) (sound : s.Sound)
    (plan : PrefillPlan) :
    ∀ pair ∈ (offeredQueue cfg s plan).zip plan.offers,
      Undisturbed cfg.cache uid pair.1 pair.2 := by
  rintro ⟨req, offer⟩ member same flagged
  have offered : req ∈ offeredQueue cfg s plan := (of_mem_zip member).1
  have waiting : req ∈ s.waitingQueue :=
    (mem_filter.mp ((calcPriority_perm _ _).mem_iff.mp offered)).1
  have held : req ∈ s.requests := by simp [State.requests, waiting]
  rw [unflagged req held same (sound.waiting req waiting).1] at flagged
  cases flagged

omit [Torch τ] in
theorem Unflagged.modify (unflagged : Unflagged uid s.requests) (number : Nat)
    (conversation : Key) (fillIds : List Nat) :
    Unflagged uid (s.modify number (·.syncRestored conversation fillIds)).requests := by
  have same : (s.modify number (·.syncRestored conversation fillIds)).requests =
      s.requests.map (changeReq number (·.syncRestored conversation fillIds)) := by
    simp only [State.requests, State.inFlight, State.modify, map_append]
    cases s.chunkedReq <;> rfl
  rw [same]
  intro req member
  obtain ⟨old, held, rfl⟩ := mem_map.mp member
  have kept := unflagged old held
  unfold changeReq
  split <;> exact kept

theorem step_ahead (ahead : s.Ahead) (inv : s.Invariant cfg size rows)
    (stepped : step cfg model s event = .ok s') : s'.Ahead := by
  intro uid later
  have unflagged := ahead uid (Nat.le_trans (step_nextUid_le inv stepped) later)
  have alone : LeavesAlone cfg uid s event → Unflagged uid s'.requests := by
    intro alone
    have tracks : s.Tracks (Lineage.empty model) uid := tracks_empty_iff.mpr unflagged
    exact tracks_empty_iff.mp (step_tracks tracks inv alone (.inr later) stepped)
  cases event with
  | advance seconds => exact alone trivial
  | generate recv => exact alone trivial
  | abort recv => exact alone trivial
  | decode plan => exact alone trivial
  | prefill plan => exact alone (unflagged.undisturbed inv.sound plan)
  | restore source recv newRid =>
    have restored := handleRestoreSnapshot_restored cfg s source recv newRid
    injection stepped with same
    rw [same] at restored
    cases restored with
    | unchanged => exact unflagged
    | staged pending => exact unflagged
    | givenBack => exact unflagged
    | created create => exact alone (.inl create)
    | broken => exact unflagged
    | live =>
      refine Unflagged.modify ?_ _ _ _
      exact unflagged

theorem run_reaches_ahead (cfg : Config) (model : Model τ) (size : Nat)
    (convSpecs : List TensorSpec) (temporalSpec : TensorSpec) (maxNumReqs : Nat)
    (events : List (Event τ)) (s : State τ)
    (completed : run cfg model (.initial size convSpecs temporalSpec maxNumReqs) events = .ok s) :
    s.Invariant cfg size maxNumReqs ∧ s.Ahead := by
  have preserved : ∀ (s : State τ) (event : Event τ) (s' : State τ),
      s.Invariant cfg size maxNumReqs ∧ s.Ahead → step cfg model s event = .ok s' →
        s'.Invariant cfg size maxNumReqs ∧ s'.Ahead := by
    rintro s event s' ⟨inv, ahead⟩ stepped
    exact ⟨step_invariant inv stepped, step_ahead ahead inv stepped⟩
  refine run_preserves preserved events _ s ?_ completed
  refine ⟨State.initial_invariant cfg size convSpecs temporalSpec maxNumReqs, ?_⟩
  intro uid _ req member
  simp [State.requests, State.inFlight, State.initial] at member

/-! ### The hydration and what follows -/

omit [Torch τ] in
def Lineage.ofStaged (model : Model τ) (staged : SlotState τ) : Lineage model where
  fresh := fun state => state = staged
  advanced := fun state => ∃ passes : List (List Nat), state = passes.foldl model.forward staged
  ofFresh := fun _ same => ⟨[], same⟩
  forward := by
    rintro state tokens ⟨passes, rfl⟩
    exact ⟨passes ++ [tokens], by rw [List.foldl_append, List.foldl_cons, List.foldl_nil]⟩

theorem hydrating_tracks {recv : GenerateReq} {key : Key} {entry : PendingRestoreEntry τ}
    (ahead : s.Ahead) (conserved : s.Conserved)
    (answer : (maybeHydrateFromPendingRestore s.pending (some s.mem.pool)
      (recv.toReq s.nextUid)).1 = .hydrated)
    (source : s.pending.entryFor recv.rid recv.conversationId = some (key, entry))
    (stepped : step cfg model s (.generate recv) = .ok s') :
    s'.Tracks (.ofStaged model (injectedState s.mem.pool entry.convStates entry.temporalStates))
      s.nextUid := by
  obtain ⟨slot, pool', result, content⟩ := hydrated_result answer source
  -- nothing is announced yet under the new number
  have before := ahead s.nextUid (Nat.le_refl _)
  refine handleGenerateRequest_tracks before.tracks conserved ?_ stepped
  intro answered pending pool req attempted
  rw [result] at attempted
  cases attempted
  intro _ _ _
  exact ⟨slot, rfl, rfl, rfl, content, rfl⟩

/-- While request `uid` is unfinished and flagged, its slot is neither free nor in the
    tree, and holds the staged state, advanced by forward passes only. -/
def KeepsRestored (model : Model τ) (staged : SlotState τ) (uid : Nat) (mem : Memory τ)
    (req : Req) : Prop :=
  req.uid = uid → req.finishedReason = none → req.mambaHasRestoredState = true →
    ∃ (slot : Nat) (passes : List (List Nat)), req.mambaPoolIdx = some slot ∧
      slot ∉ mem.pool.freeSlots ∧ slot ∉ mem.tree ∧
      mem.pool.cache slot = passes.foldl model.forward staged

/-- A flagged request that is about to be prefilled from its first token has exactly the
    staged state in its slot. -/
def StartsRestored (staged : SlotState τ) (uid : Nat) (mem : Memory τ) (req : Req) : Prop :=
  req.uid = uid → req.mambaHasRestoredState = true → req.prefixLen = 0 →
    ∃ slot, req.mambaPoolIdx = some slot ∧ mem.pool.cache slot = staged

omit [Torch τ] in
theorem Req.Carries.keepsRestored {staged : SlotState τ} {mem : Memory τ} {reqs : List Req}
    {req : Req} (carries : req.Carries uid (Lineage.ofStaged model staged).running mem)
    (exclusive : Exclusive mem reqs) (member : req ∈ reqs) :
    KeepsRestored model staged uid mem req := by
  intro same unfinished flagged
  obtain ⟨slot, named, _, _, passes, content⟩ := carries same unfinished flagged
  have unowned := exclusive.count_eq_zero member
    (Req.owns_of_named unfinished named)
  simp only [Memory.count, Nat.add_eq_zero_iff, count_eq_zero] at unowned
  exact ⟨slot, passes, named, unowned.1, unowned.2, content⟩

theorem run_tracks {events : List (Event τ)} (tracks : s.Tracks lineage uid)
    (inv : s.Invariant cfg size rows) (given : uid < s.nextUid)
    (alone : Admissible (step cfg model) (LeavesAlone cfg uid) s events)
    (completed : run cfg model s events = .ok s') :
    s'.Tracks lineage uid ∧ s'.Invariant cfg size rows := by
  have preserved : ∀ (s : State τ) (event : Event τ) (s' : State τ),
      (s.Tracks lineage uid ∧ s.Invariant cfg size rows) ∧ uid < s.nextUid →
      LeavesAlone cfg uid s event → step cfg model s event = .ok s' →
        (s'.Tracks lineage uid ∧ s'.Invariant cfg size rows) ∧ uid < s'.nextUid := by
    rintro s event s' ⟨⟨tracks, inv⟩, given⟩ alone stepped
    have later := step_nextUid_le inv stepped
    exact ⟨⟨step_tracks tracks inv alone (.inl given) stepped, step_invariant inv stepped⟩,
      by omega⟩
  have reached := run_invariant preserved events s s' ⟨⟨tracks, inv⟩, given⟩ alone completed
  exact reached.1

/-- From the event that hydrates a request on, and for every run whose events leave the
    request alone: while the flag is set, the slot is the request's own and nothing but
    forward passes have changed the staged state; and whenever a batch is formed, the
    request starts its first token from exactly the staged state. -/
theorem hydration_survives_scheduling (cfg : Config) (model : Model τ) (size : Nat)
    (convSpecs : List TensorSpec) (temporalSpec : TensorSpec) (maxNumReqs : Nat)
    (before after : List (Event τ)) (recv : GenerateReq) (key : Key)
    (entry : PendingRestoreEntry τ) (s hydrated s' : State τ)
    (reached : run cfg model (.initial size convSpecs temporalSpec maxNumReqs) before = .ok s)
    (answer : (maybeHydrateFromPendingRestore s.pending (some s.mem.pool)
      (recv.toReq s.nextUid)).1 = .hydrated)
    (source : s.pending.entryFor recv.rid recv.conversationId = some (key, entry))
    (arrived : step cfg model s (.generate recv) = .ok hydrated)
    (alone : Admissible (step cfg model) (LeavesAlone cfg s.nextUid) hydrated after)
    (completed : run cfg model hydrated after = .ok s') :
    let staged := injectedState s.mem.pool entry.convStates entry.temporalStates
    (∀ req ∈ s'.requests, KeepsRestored model staged s.nextUid s'.mem req) ∧
      ∀ plan begun formed batch, LeavesAlone cfg s.nextUid s' (.prefill plan) →
        beginIteration cfg s' plan.stash = .ok begun →
        getNewBatchPrefill cfg begun plan = .ok (formed, batch) →
        ∀ req ∈ batch, KeepsRestored model staged s.nextUid formed.mem req ∧
          StartsRestored staged s.nextUid formed.mem req := by
  intro staged
  obtain ⟨inv, ahead⟩ := run_reaches_ahead cfg model size convSpecs temporalSpec maxNumReqs before
    s reached
  have given : s.nextUid < hydrated.nextUid := by
    rw [handleGenerateRequest_nextUid arrived]
    exact Nat.lt_succ_self _
  -- the tracking starts with the event that hydrates, and every later event keeps it
  obtain ⟨tracks, inv'⟩ := run_tracks (hydrating_tracks ahead inv.conserved answer source arrived)
    (step_invariant inv arrived) given alone completed
  constructor
  · intro req member
    have accounted : req ∈ s'.accounted := mem_append_left _ member
    exact (tracks.carries member).keepsRestored (Exclusive.of_conserved inv'.conserved) accounted
  intro plan begun formed batch undisturbed started forms req member
  -- a batch that is formed next carries the state as well
  obtain ⟨_, carried, batchFormed, exclusive⟩ :=
    prefillBatch_tracks tracks inv' undisturbed started forms
  have carries := carried req member
  constructor
  · exact (carries.mono (fun _ holds => holds.1)).keepsRestored exclusive
      (mem_append_left _ member)
  · intro same flagged first
    obtain ⟨slot, named, _, _, content⟩ :=
      carries same (batchFormed.ready req member).unfinished flagged
    exact ⟨slot, named, content.2.1 first⟩

theorem hydration_survives_scheduling_in_chunks :
    let spec : TensorSpec := ⟨.float32, [1]⟩
    let tensor : IntTensor := ⟨.float32, [1], [5]⟩
    let cfg : Config := { cache := { kind := .mambaRadixCache }, ppMaxMicroBatchSize := 4 }
    let source := SnapshotSource.always
      { convStates := [tensor], temporalStates := tensor, fillIds := some [1, 2] }
    let recv : GenerateReq := { rid := "r", inputIds := [3, 4] }
    let before : List (Event IntTensor) := [.restore source { rid := some "r" } "new"]
    let after : List (Event IntTensor) :=
      [.prefill { offers := [{ verdict := .admitted (some 1) true }] }, .prefill {}, .decode {}]
    ∃ s hydrated s',
      run cfg Model.appending (.initial 3 [spec] spec 1) before = .ok s ∧
      step cfg Model.appending s (.generate recv) = .ok hydrated ∧
      run cfg Model.appending hydrated after = .ok s' ∧
      ∃ req ∈ s'.requests, req.uid = s.nextUid ∧ req.mambaHasRestoredState = true ∧
        KeepsRestored Model.appending ⟨[tensor], tensor⟩ s.nextUid s'.mem req := by
  intro spec tensor cfg source recv before after
  obtain ⟨s, reached, answer, ⟨key, entry⟩, found, staged, hydrated, arrived, alone, s', completed,
      req, member, flagged⟩ :
      ∃ s, run cfg Model.appending (.initial 3 [spec] spec 1) before = .ok s ∧
        (maybeHydrateFromPendingRestore s.pending (some s.mem.pool)
          (recv.toReq s.nextUid)).1 = .hydrated ∧
        ∃ found, s.pending.entryFor recv.rid recv.conversationId = some found ∧
          injectedState s.mem.pool found.2.convStates found.2.temporalStates =
            ⟨[tensor], tensor⟩ ∧
          ∃ hydrated, step cfg Model.appending s (.generate recv) = .ok hydrated ∧
            Admissible (step cfg Model.appending) (LeavesAlone cfg s.nextUid) hydrated after ∧
            ∃ s', run cfg Model.appending hydrated after = .ok s' ∧
              ∃ req ∈ s'.requests, req.uid = s.nextUid ∧ req.mambaHasRestoredState = true := by
    set_option synthInstance.maxSize 1024 in
    decide +kernel
  have survives := hydration_survives_scheduling cfg Model.appending 3 [spec] spec 1 before after
    recv key entry s hydrated s' reached answer found arrived alone completed
  rw [staged] at survives
  exact ⟨s, hydrated, s', reached, arrived, completed, req, member, flagged.1, flagged.2,
    survives.1 req member⟩

/-- A refused admission frees the restored slot and leaves the flag: the request then
    starts from a cleared slot. A prefix match copies the state of a node over the
    restored one, with the flag still set. -/
theorem hydration_lost_in_scheduling :
    let spec : TensorSpec := ⟨.float32, [1]⟩
    let tensor : IntTensor := ⟨.float32, [1], [5]⟩
    let staged : SlotState IntTensor := ⟨[tensor], tensor⟩
    let cfg : Config := { cache := { kind := .mambaRadixCache }, ppMaxMicroBatchSize := 4 }
    let source := SnapshotSource.always
      { convStates := [tensor], temporalStates := tensor, fillIds := some [1, 2] }
    let hydrate : List (Event IntTensor) :=
      [.restore source { rid := some "r" } "new", .generate { rid := "r", inputIds := [3, 4] }]
    let refuse : Event IntTensor := .prefill { offers := [{ verdict := .refused }] }
    let offer : PrefillPlan := { offers := [{ verdict := .admitted none true }] }
    let finish : List (Event IntTensor) :=
      [.generate { rid := "q", inputIds := [3] },
        .prefill { offers := [{ verdict := .admitted none true }],
                   outcomes := [{ finish := some .length }] }]
    let hit : PrefillPlan :=
      { offers := [{ hit := { slot := some 1, prefixLen := 1 }, verdict := .admitted none true }] }
    (∃ s, run cfg Model.appending (.initial 3 [spec] spec 1) hydrate = .ok s ∧
      ∃ req ∈ s.waitingQueue, req.mambaHasRestoredState = true ∧ req.mambaPoolIdx = some 1 ∧
        s.mem.pool.cache 1 = staged) ∧
    (∃ s begun formed batch,
      run cfg Model.appending (.initial 3 [spec] spec 1) (hydrate ++ [refuse]) = .ok s ∧
      (∃ req ∈ s.waitingQueue, req.mambaHasRestoredState = true ∧ 1 ∈ s.mem.pool.freeSlots) ∧
      beginIteration cfg s offer.stash = .ok begun ∧
      getNewBatchPrefill cfg begun offer = .ok (formed, batch) ∧
      ∃ req ∈ batch, req.mambaHasRestoredState = true ∧ req.prefixLen = 0 ∧
        ∃ slot, req.mambaPoolIdx = some slot ∧ formed.mem.pool.cache slot ≠ staged) ∧
    (∃ s begun formed batch,
      run cfg Model.appending (.initial 3 [spec] spec 1) (finish ++ hydrate) = .ok s ∧
      beginIteration cfg s hit.stash = .ok begun ∧
      getNewBatchPrefill cfg begun hit = .ok (formed, batch) ∧
      ∃ req ∈ batch, req.mambaHasRestoredState = true ∧
        ∃ slot, req.mambaPoolIdx = some slot ∧ s.mem.pool.cache slot = staged ∧
          formed.mem.pool.cache slot ≠ staged) := by
  intro spec tensor staged cfg source hydrate refuse offer finish hit
  simp only [exists_and_left]
  set_option synthInstance.maxSize 1024 in
  decide +kernel

end Steps

end Engram.Scheduler
