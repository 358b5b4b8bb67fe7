import Engram.Sessions.Exclusive

/-!
# Closing a session

`_close` of a streaming session puts the release off while a request is under way that its flag or
its last node tells of. A session that is not streaming is released at once. Over whole runs, a
streaming session has one request at a time (`streaming_one_request`), and what `_close` has
released has no request under way (`closed_sessions_settled`).
-/

namespace Engram.Sessions

open Lib Lib.Transition List

namespace World

variable {w w' : World} {s : SessionRef}

structure Strips (w w' : World) : Prop extends Ages Req.Kept w w' where
  sessions : w'.sessions = w.sessions
  attached : ∀ r, (w.reqs r).finishedReason = none →
    ((w'.reqs r).session, (w'.reqs r).toFinish) = ((w.reqs r).session, (w.reqs r).toFinish)

theorem Strips.refl (w : World) : Strips w w :=
  ⟨.refl .refl w, rfl, fun _ _ => rfl⟩

theorem Strips.trans {w'' : World} (first : Strips w w') (second : Strips w' w'') :
    Strips w w'' :=
  ⟨first.toAges.trans second.toAges .trans, second.sessions.trans first.sessions,
    fun r unfinished => (second.attached r ((first.reqs r).finishedReason.trans unfinished)).trans
      (first.attached r unfinished)⟩

theorem modifyReq_strips (w : World) (r : ReqId) {f : Req → Req}
    (kept : Req.Kept (w.reqs r) (f (w.reqs r)))
    (attached : (w.reqs r).finishedReason = none →
      ((f (w.reqs r)).session, (f (w.reqs r)).toFinish) =
        ((w.reqs r).session, (w.reqs r).toFinish)) : Strips w (w.modifyReq r f) := by
  refine ⟨.modifyReq .refl w r kept, rfl, fun x unfinished => ?_⟩
  rw [modifyReq_reqs]
  split
  · next isReq =>
    subst isReq
    exact attached unfinished
  · rfl

theorem releaseFeatures_strips (w : World) (nodes : List NodeId) :
    Strips w (w.releaseFeatures nodes).2 := by
  -- over the nodes, with the features seen so far
  have loop (step : List MmRef × World → NodeId → List MmRef × World)
      (strips : ∀ acc n, Strips acc.2 (step acc n).2) (acc : List MmRef × World) :
      Strips acc.2 (nodes.foldl step acc).2 := by
    induction nodes generalizing acc with
    | nil => exact .refl acc.2
    | cons n nodes ih => exact (strips acc n).trans (ih _)
  refine loop _ ?_ ([], w)
  rintro ⟨seen, w⟩ n
  exact w.modifyReq_strips (w.nodes n).req (f := fun req => { req with multimodalInputs := none })
    ⟨.inl rfl, rfl, rfl, fun marked => marked⟩ fun _ => rfl

/-- `_close` goes on to the release: nothing is in flight, and the last request has finished. -/
theorem hasUnfinishedRequest_false (done : w.hasUnfinishedRequest s = .ok false)
    (streaming : (w.sessions s).streaming = true) : (w.sessions s).inflight = false ∧
      ∀ n ∈ (w.sessions s).reqNodes.items.map (·.2), (w.nodeReq n).finished = true := by
  rw [hasUnfinishedRequest, if_pos streaming] at done
  split at done
  · cases done
  next idle =>
  refine ⟨by simpa using idle, ?_⟩
  split at done
  · next empty => simp [empty]
  · next rid last items =>
    injection done with finished
    simpa [items] using finished
  · cases done

end World

namespace Serving

variable {v v' v'' : Serving} {r x : ReqId} {s : SessionRef} {id : String}

/-- What `_close` has released belonged to sessions with no request under way. -/
def Settled (v : Serving) : Prop :=
  ∀ s ∈ v.closed, ∀ r, ¬ v.Live s r

/-- `_close` can know of every request under way: the session is streaming, and none of its
    requests has been detached to be aborted. -/
def Safe (v : Serving) (id : String) : Prop :=
  ∀ s, v.sessions.lookup id = some s → ∀ r, v.Live s r →
    (v.world.sessions s).streaming = true ∧ ¬ v.Stranded r

structure Shrinks (v v' : Serving) : Prop where
  sessions : ∀ id s, v'.sessions.lookup id = some s → v.sessions.lookup id = some s
  live : ∀ s r, v'.Live s r → v.Live s r
  stranded : ∀ s r, v'.Live s r → v'.Stranded r → v.Stranded r
  streaming : ∀ s, (v'.world.sessions s).streaming = (v.world.sessions s).streaming
  isTimedOut : ∀ s now, (v'.world.sessions s).isTimedOut now = (v.world.sessions s).isTimedOut now

theorem Shrinks.refl (v : Serving) : Shrinks v v :=
  ⟨fun _ _ => id, fun _ _ => id, fun _ _ _ => id, fun _ => rfl, fun _ _ => rfl⟩

theorem Shrinks.trans (first : Shrinks v v') (second : Shrinks v' v'') : Shrinks v v'' :=
  ⟨fun id s found => first.sessions id s (second.sessions id s found),
    fun s r live => first.live s r (second.live s r live), fun s r live stranded =>
      first.stranded s r (second.live s r live) (second.stranded s r live stranded),
    fun s => (second.streaming s).trans (first.streaming s),
    fun s now => (second.isTimedOut s now).trans (first.isTimedOut s now)⟩

theorem Safe.shrinks (safe : v.Safe id) (shrinks : Shrinks v v') : v'.Safe id := by
  intro s found r live
  obtain ⟨streaming, known⟩ := safe s (shrinks.sessions id s found) r (shrinks.live s r live)
  exact ⟨(shrinks.streaming s).trans streaming, fun stranded =>
    known (shrinks.stranded s r live stranded)⟩

structure Closes (v : Serving) (id : String) (v' : Serving) : Prop where
  inv : v'.Inv
  shrinks : Shrinks v v'
  settled : v.Safe id → v.Settled → v'.Settled

theorem modifySession_closes (inv : v.Inv) (id : String) (s : SessionRef) (closeOnFinish : Bool) :
    Closes v id { v with
      world := v.world.modifySession s fun session => { session with closeOnFinish } } := by
  have kept : ∀ {α : Type} (field : Session → α),
      (∀ session, field { session with closeOnFinish } = field session) → ∀ other,
      field ((v.world.modifySession s fun session => { session with closeOnFinish }).sessions
        other) =
        field (v.world.sessions other) := by
    intro α field same other
    rw [World.modifySession_sessions]
    split
    · next isSession => rw [same, isSession]
    · rfl
  have ages : v.world.Ages Req.Goes
      (v.world.modifySession s fun session => { session with closeOnFinish }) :=
    .modifySession .refl _ rfl rfl
  have onward : Onward v { v with
      world := v.world.modifySession s fun session => { session with closeOnFinish } } :=
    ⟨ages, rfl, fun _ _ found => found, fun _ isClosed => .inl isClosed, fun _ going => going,
      fun _ _ => ⟨fun marked => marked, rfl⟩, fun _ _ queued free => free queued⟩
  refine ⟨inv.onward onward fun other streaming => ?_, ⟨fun _ _ found => found,
    fun _ _ => onward.live, fun _ _ _ stranded => stranded, onward.ages.streaming,
    fun other now => kept (·.isTimedOut now) (fun _ => rfl) other⟩,
    fun _ settled other isClosed r live => settled other isClosed r (onward.live live)⟩
  exact (inv.turn other streaming).keep onward (kept (·.inflight) (fun _ => rfl) other)
    (kept (·.reqNodes) (fun _ => rfl) other)

theorem release_strips (id : String) (done : v.world.hasUnfinishedRequest s = .ok false) :
    v.world.Strips (v.release id s).world := by
  refine World.Strips.trans ?_ (World.releaseFeatures_strips _ _)
  split
  · next node rest streaming isNodes =>
    refine World.modifyReq_strips _ _ ⟨.inr rfl, rfl, rfl, fun marked => marked⟩ fun unfinished =>
      ?_
    -- the request of the node has finished
    have finished := (World.hasUnfinishedRequest_false done streaming).2 node (by simp [isNodes])
    rw [World.nodeReq, Req.finished, unfinished] at finished
    cases finished
  · exact .refl _

theorem release_closes (inv : v.Inv) (found : v.sessions.lookup id = some s)
    (done : v.world.hasUnfinishedRequest s = .ok false) : Closes v id (v.release id s) := by
  have strips := release_strips id done
  have lookups : ∀ other, (v.release id s).sessions.lookup other =
      if other = id then none else v.sessions.lookup other :=
    fun other => OrderedDict.lookup_erase ..
  have isClosed : (v.release id s).closed = v.closed ++ [s] := rfl
  have onward : Onward v (v.release id s) := by
    refine ⟨strips.toAges.mono Req.Kept.goes, rfl, fun other s' found' => ?_, fun s' member => ?_,
      fun _ going => going, fun x _ => ⟨(strips.reqs x).toFinish, (strips.reqs x).finishedReason⟩,
      fun _ _ queued free => free queued⟩
    · rw [lookups] at found'
      split at found'
      · cases found'
      · exact found'
    · rw [isClosed, mem_append, mem_singleton] at member
      refine member.imp_right ?_
      rintro rfl
      obtain ⟨isOld, isId, -⟩ := inv.indexed id s' found
      refine ⟨isOld, fun other found' => ?_⟩
      rw [lookups] at found'
      split at found'
      · cases found'
      · next different =>
        exact different ((inv.indexed other s' found').2.1.symm.trans isId)
  refine ⟨inv.onward onward fun other streaming => ?_, ⟨onward.sessions, fun _ _ => onward.live,
    fun s' r live stranded => ?_, onward.ages.streaming, fun other now => by rw [strips.sessions]⟩,
      ?_⟩
  · exact (inv.turn other streaming).keep onward (by rw [strips.sessions]) (by rw [strips.sessions])
  · have attached := strips.attached r (inv.unfinished r (onward.live live).2)
    rw [Prod.mk.injEq] at attached
    exact ⟨attached.1.symm.trans stranded.1, attached.2.symm.trans stranded.2⟩
  intro safe settled s' member r live
  have before := onward.live live
  rw [isClosed, mem_append, mem_singleton] at member
  obtain old | rfl := member
  · exact settled s' old r before
  obtain ⟨streaming, known⟩ := safe s' found r before
  -- the flag is down, so that the request would be the one of the node
  obtain ⟨down, finished⟩ := World.hasUnfinishedRequest_false done streaming
  obtain up | ⟨-, holds⟩ | stranded := inv.turn s' streaming r before
  · rw [down] at up
    cases up
  · obtain ⟨rid, n, items, -, isReq⟩ := holds
    have isFinished := finished n (by simp [items])
    rw [World.nodeReq, isReq, Req.finished, inv.unfinished r before.2] at isFinished
    cases isFinished
  · exact known stranded

theorem closeSession_closes (inv : v.Inv) (closed : v.closeSession id = .ok v') :
    Closes v id v' := by
  rw [closeSession] at closed
  split at closed
  · cases closed
  · next s found =>
    obtain ⟨unfinished, isUnfinished, done⟩ := bind_ok closed
    cases unfinished with
    | true =>
      cases done
      exact modifySession_closes inv id s true
    | false =>
      cases done
      exact release_closes inv found isUnfinished

theorem closeDeferred_closes (inv : v.Inv) (closed : v.closeDeferred id = .ok v') :
    Closes v id v' := by
  rw [closeDeferred] at closed
  split at closed
  · cases closed
  · next s found =>
    have reset := modifySession_closes inv id s false
    have closes := closeSession_closes reset.inv closed
    exact ⟨closes.inv, reset.shrinks.trans closes.shrinks, fun safe settled =>
      closes.settled (safe.shrinks reset.shrinks) (reset.settled safe settled)⟩

theorem foldlM_closes {close : Serving → String → Except Fault Serving}
    (each : ∀ v id v', v.Inv → close v id = .ok v' → Closes v id v') (ids : List String)
    (inv : v.Inv) (closed : ids.foldlM close v = .ok v') :
    v'.Inv ∧ Shrinks v v' ∧ ((∀ id ∈ ids, v.Safe id) → v.Settled → v'.Settled) := by
  induction ids generalizing v with
  | nil =>
    cases closed
    exact ⟨inv, .refl _, fun _ settled => settled⟩
  | cons id ids ih =>
    obtain ⟨mid, first, rest⟩ := bind_ok closed
    have closes := each v id mid inv first
    obtain ⟨inv', shrinks, settled⟩ := ih closes.inv rest
    refine ⟨inv', closes.shrinks.trans shrinks, fun safe before => settled ?_ ?_⟩
    · exact fun other member => (safe other (.tail _ member)).shrinks closes.shrinks
    · exact closes.settled (safe id (.head _)) before

/-- A request of the session is under way only if `_close` can know of it. -/
def Watched (v : Serving) (s : SessionRef) : Prop :=
  ∀ r < v.world.nextReq, v.Live s r → (v.world.sessions s).streaming = true ∧ ¬ v.Stranded r

instance (v : Serving) (s : SessionRef) : Decidable (v.Watched s) :=
  inferInstanceAs (Decidable (∀ r < v.world.nextReq, _))

/-- No session that is not streaming is closed while a request of it is under way, and no
    streaming one while a request of it is under way that has been detached to be aborted. -/
def Patient (v : Serving) : Event → Prop
  | .close id => ∀ s ∈ v.sessions.lookup id, v.Watched s
  | .reap now interval => v.lastReapTime + interval < now →
    ∀ entry ∈ v.sessions.items, (v.world.sessions entry.2).closeOnFinish = true ∨
      (v.world.sessions entry.2).isTimedOut now = true → v.Watched entry.2
  | _ => True

instance (v : Serving) : DecidablePred v.Patient
  | .close id => inferInstanceAs (Decidable (∀ s ∈ v.sessions.lookup id, _))
  | .reap _ _ => inferInstanceAs (Decidable (_ → ∀ entry ∈ v.sessions.items, _))
  | .openSession .. | .generate .. | .preAbort _ | .schedule .. | .finish .. | .abortRunning _
  | .abortQueued .. | .retract .. => instDecidableTrue

theorem safe_of_watched (inv : v.Inv) (watched : ∀ s ∈ v.sessions.lookup id, v.Watched s) :
    v.Safe id :=
  fun s found r live => watched s found r (inv.accepted r s live.1).1 live

theorem Inv.reap (inv : v.Inv) {now interval : Nat} (reaped : v.maybeReap now interval = .ok v') :
    v'.Inv ∧ (v.Patient (.reap now interval) → v.Settled → v'.Settled) := by
  rw [maybeReap] at reaped
  split at reaped
  · next due =>
    obtain ⟨mid, deferred, timed⟩ := bind_ok reaped
    have start : ({ v with lastReapTime := now } : Serving).Inv :=
      ⟨inv.accepted, inv.unfinished, inv.attached, inv.indexed, inv.released, inv.single, inv.turn⟩
    obtain ⟨invMid, shrinks, settledMid⟩ :=
      foldlM_closes (fun _ _ _ => closeDeferred_closes) _ start deferred
    obtain ⟨inv', -, settled⟩ := foldlM_closes (fun _ _ _ => closeSession_closes) _ invMid timed
    refine ⟨inv', fun patient before => settled ?_ (settledMid ?_ before)⟩
    · intro id member
      obtain ⟨⟨id, s⟩, listed, rfl⟩ := mem_map.mp member
      obtain ⟨isEntry, isTimedOut⟩ := mem_filter.mp listed
      -- the session had timed out before the deferred closes as well
      have found := shrinks.sessions id s (OrderedDict.lookup_eq_some_iff.mpr isEntry)
      dsimp only at isTimedOut
      rw [shrinks.isTimedOut] at isTimedOut
      refine Safe.shrinks (safe_of_watched start fun s' found' => ?_) shrinks
      obtain rfl : s = s' := Option.some.inj (found.symm.trans found')
      exact patient due (id, s) (OrderedDict.lookup_eq_some_iff.mp found) (.inr isTimedOut)
    intro id member
    obtain ⟨⟨id, s⟩, listed, rfl⟩ := mem_map.mp member
    obtain ⟨isEntry, isPending⟩ := mem_filter.mp listed
    rw [Bool.and_eq_true] at isPending
    refine safe_of_watched start fun s' found' => ?_
    obtain rfl : s = s' :=
      Option.some.inj ((OrderedDict.lookup_eq_some_iff.mpr isEntry).symm.trans found')
    exact patient due (id, s) isEntry (.inl isPending.1)
  · cases reaped
    exact ⟨inv, fun _ settled => settled⟩

theorem Inv.addSession (inv : v.Inv) (session : Session) : (v.addSession session).Inv := by
  have others : ∀ s, s < v.world.nextSession →
      (v.addSession session).world.sessions s = v.world.sessions s :=
    fun s isOld => Function.update_of_ne (Nat.ne_of_lt isOld) ..
  -- a request under way is of an older session
  have isOld : ∀ s r, v.Live s r → s < v.world.nextSession :=
    fun s r live => (inv.accepted r s live.1).2
  refine ⟨?_, inv.unfinished, inv.attached, ?_, ?_, ?_, ?_⟩
  · intro r s accepted
    obtain ⟨isReq, isSession⟩ := inv.accepted r s accepted
    exact ⟨isReq, Nat.lt_succ_of_lt isSession⟩
  · intro id s found
    change (v.sessions.insert session.sessionId v.world.nextSession).lookup id = some s at found
    rw [OrderedDict.lookup_insert] at found
    split at found
    · next same =>
      cases found
      refine ⟨Nat.lt_succ_self _, ?_, fun isClosed => ?_⟩
      · rw [same]
        exact congrArg Session.sessionId (Function.update_self ..)
      · exact Nat.lt_irrefl _ (inv.released _ isClosed)
    · obtain ⟨old, isId, notClosed⟩ := inv.indexed id s found
      exact ⟨Nat.lt_succ_of_lt old, by rw [others s old, isId], notClosed⟩
  · exact fun s isClosed => Nat.lt_succ_of_lt (inv.released s isClosed)
  · intro s r r' isStreaming live live'
    rw [others s (isOld s r live)] at isStreaming
    exact inv.single s r r' isStreaming live live'
  · intro s isStreaming r live
    have old := isOld s r live
    rw [others s old] at isStreaming ⊢
    refine (inv.turn s isStreaming r live).imp_right ?_
    rintro (⟨again, rid, n, items, older, isReq⟩ | stranded)
    · exact .inl ⟨again, rid, n, by rw [others s old, items], older, isReq⟩
    · exact .inr stranded

theorem Inv.openSession (inv : v.Inv) (id : Option String) (streaming : Bool)
    (timeout : Option Nat) (now : Nat) : (v.openSession id streaming timeout now).Inv ∧
      (v.Settled → (v.openSession id streaming timeout now).Settled) := by
  cases id with
  | none => exact ⟨inv, fun settled => settled⟩
  | some id =>
    rw [Serving.openSession]
    split
    · exact ⟨inv, fun settled => settled⟩
    · exact ⟨inv.addSession _, fun settled => settled⟩

/-! ### Runs -/

theorem Advances.settled (advances : Advances v v') (settled : v.Settled) : v'.Settled := by
  intro s isClosed r live
  rw [advances.closed] at isClosed
  exact settled s isClosed r (advances.live s r live)

theorem Inv.step (inv : v.Inv) {bosTokenId : Option Nat} {event : Event}
    (orderly : v.Orderly event) (stepped : v.step bosTokenId event = .ok v') :
    v'.Inv ∧ (v.Patient event → v.Settled → v'.Settled) := by
  have advanced : Advances v v' → v'.Inv ∧ (v.Patient event → v.Settled → v'.Settled) :=
    fun advances => ⟨advances.inv, fun _ => advances.settled⟩
  cases event with
  | openSession id streaming timeout now =>
    cases stepped
    obtain ⟨inv', settled⟩ := inv.openSession id streaming timeout now
    exact ⟨inv', fun _ => settled⟩
  | generate id input mm now =>
    obtain ⟨owner, w, arrives, rfl, known⟩ := inv.generate orderly stepped
    refine ⟨inv.arrive arrives, fun _ settled s isClosed r live => ?_⟩
    by_cases same : r = v.world.nextReq
    · -- a session that accepts a request is not closed
      subst same
      exact (inv.indexed id s (known s (owner_of_live live))).2.2 isClosed
    · exact settled s isClosed r (live_before_enqueue same live)
  | preAbort r =>
    rw [Serving.step] at stepped
    split at stepped
    · cases stepped
      exact advanced (inv.modifyReq r Req.kept_setFinishWithAbort)
    · cases stepped
  | schedule r admitted =>
    rw [Serving.step] at stepped
    split at stepped
    · next queued =>
      cases stepped
      exact advanced (inv.schedule queued orderly)
    · cases stepped
  | finish r reason =>
    rw [Serving.step] at stepped
    split at stepped
    · next running => exact advanced (inv.finish (by rw [running]; decide) orderly stepped)
    · cases stepped
  | abortRunning r =>
    rw [Serving.step] at stepped
    split at stepped
    · cases stepped
      exact advanced (inv.modifyReq r Req.kept_abort)
    · cases stepped
  | abortQueued r holdsMamba =>
    rw [Serving.step] at stepped
    split at stepped
    · next queued => exact advanced (inv.abortQueued queued stepped)
    · cases stepped
  | retract r outOfMemory =>
    rw [Serving.step] at stepped
    split at stepped
    · next running => exact advanced (inv.retract (by rw [running]; decide) orderly stepped)
    · cases stepped
  | close id =>
    rw [Serving.step, close] at stepped
    split at stepped
    · have closes := closeSession_closes inv stepped
      exact ⟨closes.inv, fun patient => closes.settled (safe_of_watched inv patient)⟩
    · cases stepped
      exact ⟨inv, fun _ settled => settled⟩
  | reap now interval => exact inv.reap stepped

/-- In every run in which no request is created behind a retracted or a detached one, and no
    rejected request is served next to an accepted one, a streaming session has at most one
    request under way. -/
theorem streaming_one_request (bosTokenId : Option Nat) (events : List Event)
    (orderly : Admissible (step bosTokenId) Orderly {} events) (v : Serving)
    (reached : run (step bosTokenId) {} events = .ok v) (s : SessionRef)
    (streaming : (v.world.sessions s).streaming = true) (r r' : ReqId) (live : v.Live s r)
    (live' : v.Live s r') : r = r' := by
  have inv : v.Inv := run_invariant (fun _ _ _ inv orderly stepped => (inv.step orderly stepped).1)
    events {} v .init orderly reached
  exact inv.single s r r' streaming live live'

/-- An input without a reference to an earlier request. -/
private def turnInput (rid : Rid) : ReqInput :=
  { rid, inputIds := [1], sessionParams := { id := some "s" } }

/-- Two turns of a streaming session. A third request comes too early and is rejected; the second
    one is retracted and admitted again. -/
def twoTurns : List Event :=
  [.openSession (some "s") true none 0, .generate "s" (turnInput "a") none 1, .schedule 0 true,
    .finish 0 .regular, .generate "s" (turnInput "b") none 2, .schedule 1 false, .schedule 1 true,
    .generate "s" (turnInput "c") none 3, .retract 1 false, .schedule 1 true]

/-- The second turn is to be aborted before it is admitted. -/
def detachedTurn : List Event :=
  [.openSession (some "s") true none 0, .generate "s" (turnInput "a") none 1, .schedule 0 true,
    .finish 0 .regular, .generate "s" (turnInput "b") none 2, .preAbort 1, .schedule 1 true]

theorem streaming_one_request_twoTurns :
    ∃ v, run (step none) {} twoTurns = .ok v ∧ v.Live 0 1 ∧ ∀ r, v.Live 0 r → r = 1 := by
  obtain ⟨v, reached, live, streaming⟩ : ∃ v, run (step none) {} twoTurns = .ok v ∧
      v.Live 0 1 ∧ (v.world.sessions 0).streaming = true := by decide +kernel
  exact ⟨v, reached, live, fun r live' => streaming_one_request none twoTurns (by decide +kernel) v
    reached 0 streaming r 1 live' live⟩

/-- A rejected request that finishes takes the flag down for the one in flight, and so does a
    retraction: the next request is accepted next to an unfinished one. It is as well while a
    request that is to be aborted, and that the scheduler has detached, is still to run. -/
theorem streaming_two_requests :
    (∃ v, run (step none) {} [.openSession (some "s") true none 0,
        .generate "s" (turnInput "a") none 1, .schedule 0 true,
        .generate "s" (turnInput "b") none 2, .schedule 1 true, .finish 1 .regular,
        .generate "s" (turnInput "c") none 3] = .ok v ∧
      (v.world.sessions 0).streaming = true ∧ v.Live 0 0 ∧ v.Live 0 2) ∧
    (∃ v, run (step none) {} [.openSession (some "s") true none 0,
        .generate "s" (turnInput "a") none 1, .schedule 0 true, .retract 0 false,
        .generate "s" (turnInput "b") none 2] = .ok v ∧
      (v.world.sessions 0).streaming = true ∧ v.Live 0 0 ∧ v.Live 0 1) ∧
    ∃ v, run (step none) {} (detachedTurn ++ [.generate "s" (turnInput "c") none 3]) = .ok v ∧
      (v.world.sessions 0).streaming = true ∧ v.Live 0 1 ∧ v.Live 0 2 := by
  refine ⟨?_, ?_, ?_⟩
  · decide +kernel
  · decide +kernel
  · decide +kernel

/-- If in addition no session is closed while a request of it is under way that `_close` does not
    look for, whatever `_close` has released belongs to sessions without a request under way. -/
theorem closed_sessions_settled (bosTokenId : Option Nat) (events : List Event)
    (allowed : Admissible (step bosTokenId) (fun v event => v.Orderly event ∧ v.Patient event) {}
      events) (v : Serving) (reached : run (step bosTokenId) {} events = .ok v) (s : SessionRef)
    (closed : s ∈ v.closed) (r : ReqId) : ¬ v.Live s r := by
  have preserved : ∀ (v : Serving) (event : Event) (v' : Serving), v.Inv ∧ v.Settled →
      v.Orderly event ∧ v.Patient event → v.step bosTokenId event = .ok v' →
      v'.Inv ∧ v'.Settled := by
    intro v event v' ⟨inv, settled⟩ ⟨orderly, patient⟩ stepped
    obtain ⟨inv', settled'⟩ := inv.step orderly stepped
    exact ⟨inv', settled' patient settled⟩
  exact (run_invariant preserved events {} v ⟨.init, nofun⟩ allowed reached).2 s closed r

/-- A close that waits for the request in flight, and a session that times out. -/
def deferredClose : List Event :=
  [.openSession (some "s") true none 0, .openSession (some "p") false (some 3) 0,
    .generate "s" (turnInput "a") none 1, .schedule 0 true, .close "s", .reap 2 1,
    .finish 0 .regular, .reap 4 1]

theorem closed_sessions_settled_deferredClose :
    ∃ v, run (step none) {} deferredClose = .ok v ∧ v.closed = [0, 1] ∧ ∀ r, ¬ v.Live 0 r := by
  obtain ⟨v, reached, closed⟩ : ∃ v, run (step none) {} deferredClose = .ok v ∧
      v.closed = [0, 1] := by decide +kernel
  refine ⟨v, reached, closed, closed_sessions_settled none deferredClose (by decide +kernel) v
    reached 0 ?_⟩
  rw [closed]
  exact .head _

/-- A session that is not streaming is released below a running request, and so is a streaming one
    whose flag a rejected request has taken down, or whose request has been detached. -/
theorem closed_below_request :
    (∃ v, run (step none) {} [.openSession (some "s") false none 0,
        .generate "s" (turnInput "a") (some 7) 1, .schedule 0 true, .close "s"] = .ok v ∧
      0 ∈ v.closed ∧ 7 ∈ v.releasedFeatures ∧ v.Live 0 0) ∧
    (∃ v, run (step none) {} [.openSession (some "s") true none 0,
        .generate "s" (turnInput "a") none 1, .schedule 0 true,
        .generate "s" (turnInput "b") none 2, .schedule 1 true, .finish 1 .regular,
        .close "s"] = .ok v ∧ 0 ∈ v.closed ∧ v.Live 0 0) ∧
    ∃ v, run (step none) {} (detachedTurn ++ [.close "s"]) = .ok v ∧
      0 ∈ v.closed ∧ v.Live 0 1 := by
  refine ⟨?_, ?_, ?_⟩
  · decide +kernel
  · decide +kernel
  · decide +kernel

end Serving

end Engram.Sessions
