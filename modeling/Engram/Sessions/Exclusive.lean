import Engram.Sessions.Serving

/-!
# One request at a time

A streaming session admits a request when the flag for the request in flight is down. The flag
goes down when the request leaves, but also when a request is retracted, when one that is to be
aborted is detached from the session, and when a rejected one comes to its end. As long as no
request is created behind a retracted or a detached one, and no rejected one is served next to an
accepted one, the session has at most one request under way (`Inv.single`).

The invariant says of a request under way what `create_req` and `_close` can know it by (`Turn`).
An event on requests that exist is a step `Onward`; `Arrives` is said of a new request.
-/

namespace Engram.Sessions

open Lib Lib.Transition Function

structure Req.Kept (req req' : Req) : Prop where
  session : req'.session = req.session ∨ req'.session = none
  retractionCount : req'.retractionCount = req.retractionCount
  finishedReason : req'.finishedReason = req.finishedReason
  toFinish : req.toFinish = true → req'.toFinish = true

/-- What stays true of a request to its end and beyond. -/
structure Req.Goes (req req' : Req) : Prop where
  session : req'.session = req.session ∨ req'.session = none
  retractionCount : req.retractionCount ≤ req'.retractionCount

namespace Req

variable {req req' req'' : Req}

theorem Kept.refl (req : Req) : Kept req req :=
  ⟨.inl rfl, rfl, rfl, fun marked => marked⟩

theorem Kept.goes (kept : Kept req req') : Goes req req' :=
  ⟨kept.session, Nat.le_of_eq kept.retractionCount.symm⟩

theorem Goes.refl (req : Req) : Goes req req :=
  (Kept.refl req).goes

theorem Goes.trans (first : Goes req req') (second : Goes req' req'') : Goes req req'' := by
  refine ⟨?_, Nat.le_trans first.retractionCount second.retractionCount⟩
  rcases second.session with same | gone
  · rw [same]
    exact first.session
  · exact .inr gone

theorem Kept.trans (first : Kept req req') (second : Kept req' req'') : Kept req req'' :=
  ⟨(first.goes.trans second.goes).session, second.retractionCount.trans first.retractionCount,
    second.finishedReason.trans first.finishedReason,
    fun marked => second.toFinish (first.toFinish marked)⟩

theorem kept_abort (req : Req) : Kept req req.abort := by
  rw [abort]
  split
  · exact ⟨.inl rfl, rfl, rfl, fun _ => rfl⟩
  · exact .refl req

theorem kept_setFinishWithAbort (req : Req) : Kept req req.setFinishWithAbort :=
  ⟨.inl rfl, rfl, rfl, fun _ => rfl⟩

end Req

namespace World

variable {w w' w'' : World} {s : SessionRef} {params : SessionParams} {resolved : Resolved}
  {bosTokenId : Option Nat}

/-- The objects stay, and each request changes as `R` says. -/
structure Ages (R : Req → Req → Prop) (w w' : World) : Prop where
  nextReq : w'.nextReq = w.nextReq
  nextNode : w.nextNode ≤ w'.nextNode
  nextSession : w'.nextSession = w.nextSession
  reqs : ∀ x, R (w.reqs x) (w'.reqs x)
  nodes : ∀ n, n < w.nextNode → (w'.nodes n).req = (w.nodes n).req
  streaming : ∀ s, (w'.sessions s).streaming = (w.sessions s).streaming
  sessionId : ∀ s, (w'.sessions s).sessionId = (w.sessions s).sessionId

namespace Ages

variable {R R' : Req → Req → Prop}

theorem refl (same : ∀ req, R req req) (w : World) : Ages R w w :=
  ⟨rfl, Nat.le_refl _, rfl, fun _ => same _, fun _ _ => rfl, fun _ => rfl, fun _ => rfl⟩

theorem trans (first : Ages R w w') (second : Ages R w' w'')
    (both : ∀ {a b c}, R a b → R b c → R a c) : Ages R w w'' where
  nextReq := second.nextReq.trans first.nextReq
  nextNode := Nat.le_trans first.nextNode second.nextNode
  nextSession := second.nextSession.trans first.nextSession
  reqs := fun x => both (first.reqs x) (second.reqs x)
  nodes := fun n old =>
    (second.nodes n (Nat.lt_of_lt_of_le old first.nextNode)).trans (first.nodes n old)
  streaming := fun s => (second.streaming s).trans (first.streaming s)
  sessionId := fun s => (second.sessionId s).trans (first.sessionId s)

theorem mono (ages : Ages R w w') (weaker : ∀ {a b}, R a b → R' a b) : Ages R' w w' :=
  { ages with reqs := fun x => weaker (ages.reqs x) }

theorem modifyReq (same : ∀ req, R req req) (w : World) (r : ReqId) {f : Req → Req}
    (changed : R (w.reqs r) (f (w.reqs r))) : Ages R w (w.modifyReq r f) := by
  refine { refl same w with reqs := fun x => ?_ }
  rw [modifyReq_reqs]
  split
  · next isReq =>
    rw [isReq]
    exact changed
  · exact same _

theorem modifySession (same : ∀ req, R req req) (w : World) {g : Session → Session}
    (streaming : (g (w.sessions s)).streaming = (w.sessions s).streaming)
    (sessionId : (g (w.sessions s)).sessionId = (w.sessions s).sessionId) :
    Ages R w (w.modifySession s g) := by
  refine { refl same w with streaming := fun other => ?_, sessionId := fun other => ?_ }
  all_goals
    rw [modifySession_sessions]
    split
  · next isSession => rw [isSession, streaming]
  · rfl
  · next isSession => rw [isSession, sessionId]
  · rfl

end Ages

/-! ### What `create_req` leaves alone -/

/-- A part of `create_req` on session `s`. -/
structure Marks (s : SessionRef) (w w' : World) : Prop extends Ages Req.Kept w w' where
  others : ∀ other, other ≠ s → w'.sessions other = w.sessions other

namespace Marks

theorem refl (s : SessionRef) (w : World) : Marks s w w :=
  ⟨.refl .refl w, fun _ _ => rfl⟩

theorem trans (first : Marks s w w') (second : Marks s w' w'') : Marks s w w'' :=
  ⟨first.toAges.trans second.toAges .trans, fun other different =>
    (second.others other different).trans (first.others other different)⟩

theorem modifyReq (s : SessionRef) (w : World) (r : ReqId) {f : Req → Req}
    (kept : Req.Kept (w.reqs r) (f (w.reqs r))) : Marks s w (w.modifyReq r f) :=
  ⟨.modifyReq .refl w r kept, fun _ _ => rfl⟩

theorem modifySession (w : World) {g : Session → Session}
    (streaming : (g (w.sessions s)).streaming = (w.sessions s).streaming)
    (sessionId : (g (w.sessions s)).sessionId = (w.sessions s).sessionId) :
    Marks s w (w.modifySession s g) :=
  ⟨.modifySession .refl w streaming sessionId, fun other different => by
    rw [modifySession_sessions, if_neg different]⟩

theorem deleteNode {rid : Rid} (deleted : w.deleteNode s rid = .ok w') : Marks s w w' := by
  rw [World.deleteNode] at deleted
  split at deleted
  · cases deleted
    exact modifySession w rfl rfl
  · cases deleted

theorem foldlM {α : Type} {f : World → α → Except Fault World} {w w' : World}
    (each : ∀ w x w', f w x = .ok w' → Marks s w w') (xs : List α)
    (completed : xs.foldlM f w = .ok w') : Marks s w w' := by
  induction xs generalizing w with
  | nil =>
    cases completed
    exact refl s _
  | cons x xs ih =>
    obtain ⟨mid, first, rest⟩ := bind_ok completed
    exact (each w x mid first).trans (ih rest)

theorem clear (fuel : Nat) : ∀ {w : World} {n : NodeId} {w' : World},
    World.clear s fuel w n = .ok w' → Marks s w w' := by
  induction fuel with
  | zero =>
    intro w n w' cleared
    cases cleared
  | succ fuel ih =>
    intro w n w' cleared
    obtain ⟨mid, children, deleted⟩ := bind_ok cleared
    have below : Marks s w mid := foldlM (fun _ _ _ => ih) _ children
    exact below.trans ((modifyReq s mid _ (Req.kept_abort _)).trans (deleteNode deleted))

theorem clearChildren {n : NodeId} (cleared : w.clearChildren s n = .ok w') : Marks s w w' := by
  obtain ⟨mid, children, done⟩ := bind_ok cleared
  cases done
  have below : Marks s w mid := foldlM (fun _ _ _ => clear _) _ children
  refine below.trans ⟨{ Ages.refl .refl mid with nodes := fun m _ => ?_ }, fun _ _ => rfl⟩
  rw [modifyNode_nodes]
  split
  · next isNode => rw [isNode]
  · rfl

variable {params : SessionParams} {resolved : Resolved}

theorem resolveReplace (resolves : w.resolveReplace s params = .ok (resolved, w')) :
    Marks s w w' := by
  rw [World.resolveReplace] at resolves
  split at resolves
  · obtain ⟨mid, cleared, done⟩ := bind_ok resolves
    cases done
    rw [clearAll] at cleared
    split at cleared
    · cases cleared
      exact refl s w
    · obtain ⟨_, -, failed⟩ := bind_ok cleared
      cases failed
  split at resolves
  · cases resolves
    exact refl s w
  · obtain ⟨mid, cleared, done⟩ := bind_ok resolves
    cases done
    exact (modifyReq s w _ (Req.kept_abort _)).trans (clearChildren cleared)

theorem resolve (resolves : w.resolve s params = .ok (resolved, w')) : Marks s w w' := by
  rw [World.resolve] at resolves
  split at resolves
  · obtain ⟨_, -, done⟩ := bind_ok resolves
    cases done
    exact refl s w
  · split at resolves
    · exact resolveReplace resolves
    · cases resolves
      exact refl s w

end Marks

/-- There is a new request. -/
structure Adds (w w' : World) : Prop where
  nextReq : w'.nextReq = w.nextReq + 1
  nextNode : w.nextNode ≤ w'.nextNode
  nextSession : w'.nextSession = w.nextSession
  reqs : ∀ x, x ≠ w.nextReq → Req.Kept (w.reqs x) (w'.reqs x)
  unfinished : (w'.reqs w.nextReq).finishedReason = none
  nodes : ∀ n, n < w.nextNode → (w'.nodes n).req = (w.nodes n).req
  streaming : ∀ s, (w'.sessions s).streaming = (w.sessions s).streaming
  sessionId : ∀ s, (w'.sessions s).sessionId = (w.sessions s).sessionId

structure Created (w : World) (s : SessionRef) (accepted : Bool) (w' : World) : Prop
    extends Adds w w' where
  session : (w'.reqs w.nextReq).session = some s
  rejected : accepted = false → (w'.reqs w.nextReq).toFinish = true
  others : ∀ other, other ≠ s → w'.sessions other = w.sessions other
  reqNodes : (w.sessions s).streaming = true →
    (w'.sessions s).reqNodes = (w.sessions s).reqNodes
  inflight : (w.sessions s).streaming = true →
    (w'.sessions s).inflight = ((w.sessions s).inflight || accepted)
  free : (w.sessions s).streaming = true → accepted = true → (w.sessions s).inflight = false

/-- The heap with a new request in it. -/
def withReq (w : World) (req : Req) : World :=
  { w.modifyReq w.nextReq (fun _ => req) with nextReq := w.nextReq + 1 }

theorem withReq_self (w : World) (req : Req) : (w.withReq req).reqs w.nextReq = req :=
  update_self ..

theorem Marks.adds {found : World} {req : Req} (marks : Marks s w found)
    (unfinished : req.finishedReason = none) : Adds w (found.withReq req) where
  nextReq := congrArg (· + 1) marks.nextReq
  nextNode := marks.nextNode
  nextSession := marks.nextSession
  reqs := fun x other => by
    have same : (found.withReq req).reqs x = found.reqs x :=
      update_of_ne (marks.nextReq.symm ▸ other) ..
    rw [same]
    exact marks.reqs x
  unfinished := by rw [← marks.nextReq, withReq_self, unfinished]
  nodes := marks.nodes
  streaming := marks.streaming
  sessionId := marks.sessionId

theorem Adds.ages (adds : Adds w w') (ages : Ages Req.Kept w' w'') : Adds w w'' where
  nextReq := ages.nextReq.trans adds.nextReq
  nextNode := Nat.le_trans adds.nextNode ages.nextNode
  nextSession := ages.nextSession.trans adds.nextSession
  reqs := fun x other => (adds.reqs x other).trans (ages.reqs x)
  unfinished := (ages.reqs _).finishedReason.trans adds.unfinished
  nodes := fun n old =>
    (ages.nodes n (Nat.lt_of_lt_of_le old adds.nextNode)).trans (adds.nodes n old)
  streaming := fun s => (ages.streaming s).trans (adds.streaming s)
  sessionId := fun s => (ages.sessionId s).trans (adds.sessionId s)

theorem newNode_ages (w : World) (r : ReqId) (parent : Option NodeId) :
    Ages Req.Kept w (w.newNode r parent).2 where
  nextReq := w.newNode_nextReq r parent
  nextNode := by
    rw [newNode_nextNode]
    exact Nat.le_succ _
  nextSession := w.newNode_nextSession r parent
  reqs := fun x => by
    rw [newNode_reqs]
    exact .refl _
  nodes := fun n old => by rw [newNode_req, if_neg (Nat.ne_of_lt old)]
  streaming := fun s => by rw [newNode_sessions]
  sessionId := fun s => by rw [newNode_sessions]

theorem modifySession_other {g : Session → Session} {other : SessionRef} (different : other ≠ s) :
    (w.modifySession s g).sessions other = w.sessions other := by
  rw [modifySession_sessions, if_neg different]

theorem newReq_fields (w : World) (s : SessionRef) (bosTokenId : Option Nat) (input : ReqInput)
    (last : Option NodeId) :
    (w.newReq s bosTokenId input last).session = some s ∧
      (w.newReq s bosTokenId input last).finishedReason = none := by
  rw [newReq]
  split <;> exact ⟨rfl, rfl⟩

/-- On a streaming session `create_req` looks at the flag first. -/
theorem resolve_streaming (streaming : (w.sessions s).streaming = true)
    (resolves : w.resolve s params = .ok (resolved, w')) :
    w' = w ∧ (resolved.abortMessage = none → (w.sessions s).inflight = false) := by
  rw [resolve, if_pos streaming] at resolves
  obtain ⟨found, isFound, done⟩ := bind_ok resolves
  cases done
  refine ⟨rfl, fun noMessage => ?_⟩
  rw [resolveStreaming] at isFound
  split at isFound
  · cases isFound
    cases noMessage
  · next idle => simpa using idle

theorem createReq_created {input : ReqInput} {now : Nat} {r : ReqId} {accepted : Bool}
    (created : w.createReq s bosTokenId input now = .ok (r, accepted, w')) :
    r = w.nextReq ∧ Created w s accepted w' := by
  obtain ⟨⟨resolved, found⟩, resolves, done⟩ := bind_ok created
  have clock : Marks s w (w.modifySession s fun session =>
      { session with lastActiveTime := now }) :=
    .modifySession w rfl rfl
  have marks := clock.trans (.resolve resolves)
  obtain ⟨session, unfinished⟩ := newReq_fields found s bosTokenId input resolved.lastReqNode
  generalize isReq : found.newReq s bosTokenId input resolved.lastReqNode =
    req at session unfinished
  -- a streaming session has nothing changed but its clock
  have sameTurn : (w.sessions s).streaming = true →
      (found.sessions s).reqNodes = (w.sessions s).reqNodes ∧
        (found.sessions s).inflight = (w.sessions s).inflight ∧
        (resolved.abortMessage = none → (w.sessions s).inflight = false) := by
    intro streaming
    obtain ⟨rfl, free⟩ := resolve_streaming ((clock.streaming s).trans streaming) resolves
    rw [modifySession_sessions, if_pos rfl] at free ⊢
    exact ⟨rfl, rfl, free⟩
  obtain ⟨rfl, rfl, rfl⟩ : r = found.nextReq ∧ accepted = resolved.abortMessage.isNone ∧
      w' = (found.withReq req).record s found.nextReq input.rid resolved := by
    rw [← isReq]
    cases done
    exact ⟨rfl, rfl, rfl⟩
  refine ⟨marks.nextReq, ?_⟩
  cases isMessage : resolved.abortMessage with
  | some message =>
    have isRecord : (found.withReq req).record s found.nextReq input.rid resolved =
        found.withReq req.setFinishWithAbort := by
      simp only [record, isMessage, withReq, World.modifyReq, update_idem, update_self]
    rw [isRecord]
    refine ⟨marks.adds unfinished, ?_, fun _ => ?_, marks.others,
      fun streaming => (sameTurn streaming).1, fun streaming => ?_, fun _ accepted => ?_⟩
    · rw [← marks.nextReq, withReq_self]
      exact session
    · rw [← marks.nextReq, withReq_self]
      rfl
    · rw [Option.isNone_some, Bool.or_false]
      exact (sameTurn streaming).2.1
    · cases accepted
  | none =>
    have adds : Adds w (found.withReq req) := marks.adds unfinished
    have isSession : ((found.withReq req).reqs w.nextReq).session = some s := by
      rw [← marks.nextReq, withReq_self, session]
    simp only [record, isMessage]
    split
    · refine ⟨adds.ages (.modifySession .refl _ rfl rfl), isSession, fun rejected => ?_,
        fun other different => ?_, fun streaming => ?_, fun _ => ?_,
        fun streaming _ => (sameTurn streaming).2.2 isMessage⟩
      · cases rejected
      · rw [modifySession_other different]
        exact marks.others other different
      · rw [modifySession_sessions, if_pos rfl]
        exact (sameTurn streaming).1
      · rw [modifySession_sessions, if_pos rfl, Option.isNone_none, Bool.or_true]
    · next plain =>
      have plain : ¬ (w.sessions s).streaming = true := marks.streaming s ▸ plain
      refine ⟨(adds.ages (newNode_ages ..)).ages (.modifySession .refl _ rfl rfl), ?_,
        fun rejected => ?_, fun other different => ?_, fun streaming => absurd streaming plain,
        fun streaming => absurd streaming plain, fun streaming => absurd streaming plain⟩
      · rw [modifySession_reqs, newNode_reqs, isSession]
      · cases rejected
      · rw [modifySession_other different, newNode_sessions]
        exact marks.others other different

/-! ### The end of a request -/

def Holds (w : World) (s : SessionRef) (r : ReqId) : Prop :=
  ∃ rid n, (w.sessions s).reqNodes.items = [(rid, n)] ∧ n < w.nextNode ∧ (w.nodes n).req = r

theorem Holds.ages {R : Req → Req → Prop} {r : ReqId} (holds : w.Holds s r) (ages : Ages R w w')
    (reqNodes : (w'.sessions s).reqNodes = (w.sessions s).reqNodes) : w'.Holds s r := by
  obtain ⟨rid, n, items, older, isReq⟩ := holds
  exact ⟨rid, n, by rw [reqNodes, items], Nat.lt_of_lt_of_le older ages.nextNode,
    (ages.nodes n older).trans isReq⟩

theorem abortReq_ages (w : World) (s : SessionRef) : Ages Req.Kept w (w.abortReq s) :=
  .modifySession .refl w rfl rfl

theorem finishReq_ages {r : ReqId} (finished : w.finishReq s r = .ok w') : Ages Req.Kept w w' ∧
    (∀ other, other ≠ s → w'.sessions other = w.sessions other) ∧ w'.Holds s r := by
  obtain ⟨mid, detaches, done⟩ := bind_ok finished
  -- the request of the node before it is detached
  have first : Ages Req.Kept w mid ∧ ∀ other, mid.sessions other = w.sessions other := by
    rw [detachPrevious] at detaches
    split at detaches
    · cases detaches
      exact ⟨.refl .refl w, fun _ => rfl⟩
    · cases detaches
      exact ⟨.modifyReq .refl w _ ⟨.inr rfl, rfl, rfl, fun marked => marked⟩, fun _ => rfl⟩
    · cases detaches
  cases done
  refine ⟨(first.1.trans (mid.newNode_ages r none) .trans).trans (.modifySession .refl _ rfl rfl)
    .trans, fun other different => ?_, (mid.reqs r).rid, mid.nextNode, ?_, ?_, ?_⟩
  · rw [modifySession_other different, newNode_sessions, first.2]
  · rw [modifySession_sessions, if_pos rfl]
    rfl
  · rw [modifySession_nextNode, newNode_nextNode]
    exact Nat.lt_succ_self _
  · rw [modifySession_nodes, newNode_req, if_pos rfl]

end World

namespace Serving

variable {v v' : Serving} {r x : ReqId} {s : SessionRef} {owner : Option SessionRef} {w : World}

theorem streamingOf_eq_some : v.streamingOf r = some s ↔
    (v.world.reqs r).session = some s ∧ (v.world.sessions s).streaming = true := by
  rw [streamingOf, Option.filter_eq_some_iff]

structure Releases (v : Serving) (r : ReqId) (v' : Serving) : Prop where
  ages : v.world.Ages Req.Kept v'.world
  phase : v'.phase = v.phase
  acceptedBy : v'.acceptedBy = v.acceptedBy
  sessions : v'.sessions = v.sessions
  closed : v'.closed = v.closed
  holding : ∀ x, v'.holding x = if x = r then false else v.holding x
  streaming : ∀ s, (v.world.sessions s).streaming = true →
    ((v'.world.sessions s).inflight = (v.world.sessions s).inflight ∧
      (v'.world.sessions s).reqNodes = (v.world.sessions s).reqNodes) ∨
    ((v.world.reqs r).session = some s ∧ v.holding r = true ∧
      ((v.world.reqs r).finishedReason = some .abort ∧
        (v'.world.sessions s).reqNodes = (v.world.sessions s).reqNodes ∨
        v'.world.Holds s r))

theorem releaseKvCache_releases (released : v.releaseKvCache r = .ok v') : v.Releases r v' := by
  rw [releaseKvCache] at released
  split at released
  · next holds =>
    obtain ⟨mid, cached, done⟩ := bind_ok released
    cases done
    rw [tryCacheFinishedReq] at cached
    split at cached
    · -- not a request of a streaming session
      cases cached
      exact ⟨.refl .refl _, rfl, rfl, rfl, rfl, fun x => setHolding_holding .., fun _ _ =>
        .inl ⟨rfl, rfl⟩⟩
    next s isStreaming =>
    obtain ⟨isSession, -⟩ := streamingOf_eq_some.mp isStreaming
    split at cached
    · next aborted =>
      cases cached
      refine ⟨v.world.abortReq_ages s, rfl, rfl, rfl, rfl, fun x => setHolding_holding ..,
        fun other _ => ?_⟩
      by_cases same : other = s
      · subst same
        refine .inr ⟨isSession, holds, .inl ⟨aborted, ?_⟩⟩
        rw [setHolding_world, World.abortReq, World.modifySession_sessions, if_pos rfl]
        rfl
      · rw [setHolding_world, World.abortReq, World.modifySession_other same]
        exact .inl ⟨rfl, rfl⟩
    · obtain ⟨world, finished, done⟩ := bind_ok cached
      obtain ⟨ages, others, node⟩ := World.finishReq_ages finished
      cases done
      refine ⟨ages, rfl, rfl, rfl, rfl, fun x => setHolding_holding .., fun other _ => ?_⟩
      by_cases same : other = s
      · subst same
        exact .inr ⟨isSession, holds, .inr node⟩
      · rw [setHolding_world, others other same]
        exact .inl ⟨rfl, rfl⟩
  · next holdsNot =>
    cases released
    refine ⟨.refl .refl _, rfl, rfl, rfl, rfl, fun x => ?_, fun _ _ => .inl ⟨rfl, rfl⟩⟩
    split
    · next isReq =>
      rw [isReq]
      simpa using holdsNot
    · rfl

/-! ### Requests under way -/

/-- An accepted request of the session that has not come to its end. -/
def Live (v : Serving) (s : SessionRef) (r : ReqId) : Prop :=
  v.acceptedBy r = some s ∧ v.phase r ≠ .over
deriving Decidable

/-- A request that is to be aborted and has been detached from its session. -/
def Stranded (v : Serving) (r : ReqId) : Prop :=
  (v.world.reqs r).session = none ∧ (v.world.reqs r).toFinish = true
deriving Decidable

def Idle (v : Serving) (s : SessionRef) : Prop :=
  ∀ r < v.world.nextReq, ¬ v.Live s r

instance (v : Serving) (s : SessionRef) : Decidable (v.Idle s) :=
  inferInstanceAs (Decidable (∀ r < v.world.nextReq, ¬ v.Live s r))

/-- The flag is up for the request under way, or the request was retracted and the session has
    its node, or the session does not know it any more. -/
def Turn (v : Serving) (s : SessionRef) : Prop :=
  ∀ r, v.Live s r → (v.world.sessions s).inflight = true ∨
    (0 < (v.world.reqs r).retractionCount ∧ v.world.Holds s r) ∨ v.Stranded r

structure Inv (v : Serving) : Prop where
  accepted : ∀ r s, v.acceptedBy r = some s → r < v.world.nextReq ∧ s < v.world.nextSession
  unfinished : ∀ r, v.phase r ≠ .over → (v.world.reqs r).finishedReason = none
  /-- a request that was rejected is to be aborted and takes nothing from the session's slot -/
  attached : ∀ r s, (v.world.reqs r).session = some s → v.acceptedBy r ≠ some s →
    v.acceptedBy r = none ∧ (v.phase r = .over ∨
      (v.world.reqs r).toFinish = true ∧ (v.phase r = .queued → v.holding r = false))
  indexed : ∀ id s, v.sessions.lookup id = some s → s < v.world.nextSession ∧
    (v.world.sessions s).sessionId = id ∧ s ∉ v.closed
  released : ∀ s ∈ v.closed, s < v.world.nextSession
  single : ∀ s r r', (v.world.sessions s).streaming = true → v.Live s r → v.Live s r' → r = r'
  turn : ∀ s, (v.world.sessions s).streaming = true → v.Turn s

theorem Inv.init : Inv {} := by
  refine ⟨nofun, fun _ => absurd rfl, nofun, nofun, nofun, nofun, nofun⟩

theorem Inv.not_live_of_idle (inv : v.Inv) (idle : v.Idle s) : ¬ v.Live s r :=
  fun live => idle r (inv.accepted r s live.1).1 live

theorem Inv.live_or_rejected (inv : v.Inv) (going : v.phase r ≠ .over)
    (isSession : (v.world.reqs r).session = some s) : v.Live s r ∨ v.acceptedBy r = none := by
  by_cases owner : v.acceptedBy r = some s
  · exact .inl ⟨owner, going⟩
  · exact .inr (inv.attached r s isSession owner).1

/-- Events that concern requests which exist already. -/
structure Onward (v v' : Serving) : Prop where
  ages : v.world.Ages Req.Goes v'.world
  acceptedBy : v'.acceptedBy = v.acceptedBy
  sessions : ∀ id s, v'.sessions.lookup id = some s → v.sessions.lookup id = some s
  closed : ∀ s ∈ v'.closed, s ∈ v.closed ∨
    s < v.world.nextSession ∧ ∀ id, v'.sessions.lookup id ≠ some s
  phase : ∀ x, v'.phase x ≠ .over → v.phase x ≠ .over
  kept : ∀ x, v'.phase x ≠ .over →
    ((v.world.reqs x).toFinish = true → (v'.world.reqs x).toFinish = true) ∧
    (v'.world.reqs x).finishedReason = (v.world.reqs x).finishedReason
  holding : ∀ x, (v.world.reqs x).toFinish = true → v'.phase x = .queued →
    (v.phase x = .queued → v.holding x = false) → v'.holding x = false

theorem Onward.live (onward : Onward v v') (live : v'.Live s r) : v.Live s r :=
  ⟨onward.acceptedBy ▸ live.1, onward.phase r live.2⟩

theorem Onward.session_before (onward : Onward v v')
    (isSession : (v'.world.reqs r).session = some s) : (v.world.reqs r).session = some s := by
  rcases (onward.ages.reqs r).session with same | gone
  · rw [← same, isSession]
  · rw [gone] at isSession
    cases isSession

/-- What is left to show for such an event: whose turn it is. -/
theorem Inv.onward (inv : v.Inv) (onward : Onward v v')
    (turn : ∀ s, (v.world.sessions s).streaming = true → v'.Turn s) : v'.Inv := by
  obtain ⟨ages, acceptedBy, sessions, closed, phase, kept, holding⟩ := id onward
  refine ⟨fun r s accepted => ?_, fun r going => ?_, fun r s isSession notOwner => ?_,
    fun id s found => ?_, fun s isClosed => ?_, fun s r r' streaming live live' => ?_,
    fun s streaming => turn s (by rw [← ages.streaming, streaming])⟩
  · rw [ages.nextReq, ages.nextSession]
    exact inv.accepted r s (acceptedBy ▸ accepted)
  · rw [(kept r going).2]
    exact inv.unfinished r (phase r going)
  · rw [acceptedBy] at notOwner ⊢
    obtain ⟨rejected, state⟩ := inv.attached r s (onward.session_before isSession) notOwner
    refine ⟨rejected, ?_⟩
    by_cases ended : v'.phase r = .over
    · exact .inl ended
    · obtain done | ⟨toFinish, free⟩ := state
      · exact absurd done (phase r ended)
      · exact .inr ⟨(kept r ended).1 toFinish, fun queued => holding r toFinish queued free⟩
  · obtain ⟨old, isId, notClosed⟩ := inv.indexed id s (sessions id s found)
    rw [ages.nextSession, ages.sessionId]
    refine ⟨old, isId, fun isClosed => ?_⟩
    rcases closed s isClosed with before | ⟨-, gone⟩
    · exact notClosed before
    · exact gone id found
  · rw [ages.nextSession]
    rcases closed s isClosed with before | ⟨old, -⟩
    · exact inv.released s before
    · exact old
  · rw [ages.streaming] at streaming
    exact inv.single s r r' streaming (onward.live live) (onward.live live')

/-- An event on a request: the invariant holds again, and no request of a session has come in. -/
structure Advances (v v' : Serving) : Prop where
  inv : v'.Inv
  closed : v'.closed = v.closed
  live : ∀ s r, v'.Live s r → v.Live s r

theorem Inv.advance (inv : v.Inv) (onward : Onward v v') (closed : v'.closed = v.closed)
    (turn : ∀ s, (v.world.sessions s).streaming = true → v'.Turn s) : Advances v v' :=
  ⟨inv.onward onward turn, closed, fun _ _ => onward.live⟩

theorem Turn.keep (turn : v.Turn s) (onward : Onward v v')
    (inflight : (v'.world.sessions s).inflight = (v.world.sessions s).inflight)
    (reqNodes : (v'.world.sessions s).reqNodes = (v.world.sessions s).reqNodes) : v'.Turn s := by
  intro r live
  obtain up | ⟨again, holds⟩ | ⟨detached, toFinish⟩ := turn r (onward.live live)
  · exact .inl (inflight.trans up)
  · exact .inr (.inl ⟨Nat.lt_of_lt_of_le again (onward.ages.reqs r).retractionCount,
      holds.ages onward.ages reqNodes⟩)
  · refine .inr (.inr ⟨?_, (onward.kept r live.2).1 toFinish⟩)
    rcases (onward.ages.reqs r).session with same | gone
    · rw [same, detached]
    · exact gone

theorem Inv.modifyReq (inv : v.Inv) (r : ReqId) {f : Req → Req}
    (kept : ∀ req, Req.Kept req (f req)) : Advances v (v.modifyReq r f) := by
  have ages : v.world.Ages Req.Kept (v.modifyReq r f).world := .modifyReq .refl _ r (kept _)
  have onward : Onward v (v.modifyReq r f) :=
    ⟨ages.mono Req.Kept.goes, rfl, fun _ _ found => found, fun _ isClosed => .inl isClosed,
      fun _ going => going, fun x _ => ⟨(ages.reqs x).toFinish, (ages.reqs x).finishedReason⟩,
      fun _ _ queued free => free queued⟩
  exact inv.advance onward rfl fun s streaming => (inv.turn s streaming).keep onward rfl rfl

theorem Inv.setPhase_over (inv : v.Inv) (r : ReqId) : Advances v (v.setPhase r .over) := by
  have sooner : ∀ x phase, phase ≠ .over → (v.setPhase r .over).phase x = phase →
      v.phase x = phase := by
    intro x phase going isPhase
    rw [setPhase_phase] at isPhase
    split at isPhase
    · exact absurd isPhase.symm going
    · exact isPhase
  have onward : Onward v (v.setPhase r .over) :=
    ⟨.refl .refl _, rfl, fun _ _ found => found, fun _ isClosed => .inl isClosed,
      fun x going => sooner x _ going rfl ▸ going, fun _ _ => ⟨id, rfl⟩,
      fun x _ queued free => free (sooner x _ (by decide) queued)⟩
  exact inv.advance onward rfl fun s streaming => (inv.turn s streaming).keep onward rfl rfl

/-- What the end of a request, or its return to the queue, does to the request itself: only on
    the way back to the queue it has to go on. -/
theorem Releases.onward {f g : Req → Req} {phase : Phase} {mid : Serving}
    (releases : (v.modifyReq r f).Releases r mid) (going : v.phase r ≠ .over)
    (goes : ∀ req, Req.Goes req (f req) ∧ Req.Goes req (g req))
    (again : phase ≠ .over → f = id ∧ g = fun req =>
      { req with retractionCount := req.retractionCount + 1 }) :
    Onward v ((mid.modifyReq r g).setPhase r phase) := by
  have first : v.world.Ages Req.Goes (v.modifyReq r f).world := .modifyReq .refl _ r (goes _).1
  have last : mid.world.Ages Req.Goes (mid.modifyReq r g).world := .modifyReq .refl _ r (goes _).2
  refine ⟨(first.trans (releases.ages.mono Req.Kept.goes) .trans).trans last .trans,
    releases.acceptedBy,
    fun id s found => ?_, fun s isClosed => .inl (releases.closed ▸ isClosed), fun x going' => ?_,
    fun x going' => ?_, fun x toFinish queued free => ?_⟩
  · rw [setPhase_sessions, modifyReq_sessions, releases.sessions] at found
    exact found
  · rw [setPhase_phase, modifyReq_phase, releases.phase] at going'
    split at going'
    · next isReq => exact isReq ▸ going
    · exact going'
  · have kept := releases.ages.reqs x
    rw [setPhase_phase] at going'
    rw [modifyReq_world, World.modifyReq_reqs] at kept
    rw [setPhase_world, modifyReq_world, World.modifyReq_reqs]
    split at going'
    · next isReq =>
      subst isReq
      obtain ⟨rfl, rfl⟩ := again going'
      rw [if_pos rfl] at kept ⊢
      exact ⟨kept.toFinish, kept.finishedReason⟩
    · next other =>
      rw [if_neg other] at kept ⊢
      exact ⟨kept.toFinish, kept.finishedReason⟩
  · rw [setPhase_phase, modifyReq_phase, releases.phase, modifyReq_phase] at queued
    rw [setPhase_holding, modifyReq_holding, releases.holding, modifyReq_holding]
    split
    · rfl
    · next other =>
      rw [if_neg other] at queued
      exact free queued

/-- A request gives back what it holds, and is over or queued again. -/
theorem Inv.leave (inv : v.Inv) {f g : Req → Req} {phase : Phase} {mid : Serving}
    (going : v.phase r ≠ .over) (releases : (v.modifyReq r f).Releases r mid)
    (goes : ∀ req, (f req).session = req.session ∧ Req.Goes req (f req) ∧ Req.Goes req (g req))
    (again : phase ≠ .over → f = id ∧ g = fun req =>
      { req with retractionCount := req.retractionCount + 1 })
    (alone : ∀ s ∈ v.streamingOf r, v.acceptedBy r = none → v.holding r = true → v.Idle s) :
    Advances v ((mid.modifyReq r g).setPhase r phase) := by
  have onward := releases.onward going (fun req => (goes req).2) again
  refine inv.advance onward releases.closed fun s streaming => ?_
  obtain ⟨inflight, reqNodes⟩ | ⟨isSession, holds, outcome⟩ := releases.streaming s streaming
  · exact (inv.turn s streaming).keep onward inflight reqNodes
  intro x live
  rw [modifyReq_world, World.modifyReq_reqs, if_pos rfl, (goes _).1] at isSession
  -- the request has the turn, or it was rejected and nobody has
  obtain under | rejected := inv.live_or_rejected going isSession
  · obtain rfl := inv.single s x r streaming (onward.live live) under
    have stays : phase ≠ .over := by simpa using live.2
    obtain ⟨rfl, rfl⟩ := again stays
    obtain ⟨aborted, -⟩ | node := outcome
    · rw [modifyReq_world, World.modifyReq_reqs, if_pos rfl, id, inv.unfinished x going] at aborted
      cases aborted
    · refine .inr (.inl ⟨?_, node⟩)
      rw [setPhase_world, modifyReq_world, World.modifyReq_reqs, if_pos rfl]
      exact Nat.succ_pos _
  · exact absurd (onward.live live) (inv.not_live_of_idle
      (alone s (streamingOf_eq_some.mpr ⟨isSession, streaming⟩) rejected holds))

/-! ### Events on requests -/

/-- `create_req` is not called while a request of the streaming session is under way that has been
    retracted, or that has been detached to be aborted; and a rejected request that is attached to
    a streaming session is not matched against the slot of the session, finished or retracted
    while an accepted one is under way. -/
def Orderly (v : Serving) : Event → Prop
  | .generate id _ _ _ =>
    ∀ s ∈ (v.sessions.lookup id).filter fun s => !(v.world.sessions s).closeOnFinish,
      (v.world.sessions s).streaming = true → ∀ r < v.world.nextReq, v.Live s r →
        (v.world.reqs r).retractionCount = 0 ∧ ¬ v.Stranded r
  | .schedule r _ => ∀ s ∈ v.streamingOf r, v.acceptedBy r = none →
      (v.world.sessions s).sessionId ∈ v.slots → v.Idle s
  | .finish r _ => ∀ s ∈ v.streamingOf r, v.acceptedBy r = none → v.Idle s
  | .retract r _ => ∀ s ∈ v.streamingOf r, v.acceptedBy r = none → v.Idle s
  | _ => True

instance (v : Serving) : DecidablePred v.Orderly
  | .generate id _ _ _ => inferInstanceAs (Decidable (∀ s ∈ (v.sessions.lookup id).filter _, _))
  | .schedule r _ | .finish r _ | .retract r _ =>
    inferInstanceAs (Decidable (∀ s ∈ v.streamingOf r, _))
  | .openSession .. | .preAbort _ | .abortRunning _ | .abortQueued .. | .close _ | .reap .. =>
    instDecidableTrue

theorem modifyReq_id (v : Serving) (r : ReqId) : v.modifyReq r id = v := by
  rw [modifyReq, World.modifyReq, id, update_eq_self]

theorem setPhase_eq_self {phase : Phase} (isPhase : v.phase r = phase) :
    v.setPhase r phase = v := by
  rw [setPhase, ← isPhase, update_eq_self]

theorem goes_updateFinishState (reason : FinishReason) (req : Req) :
    (updateFinishState reason req).session = req.session ∧
      Req.Goes req (updateFinishState reason req) ∧ Req.Goes req (id req) := by
  rw [updateFinishState]
  split
  · exact ⟨rfl, .refl _, .refl _⟩
  · split <;> exact ⟨rfl, ⟨.inl rfl, Nat.le_refl _⟩, .refl _⟩

theorem Inv.finish (inv : v.Inv) (going : v.phase r ≠ .over) {reason : FinishReason}
    (alone : ∀ s ∈ v.streamingOf r, v.acceptedBy r = none → v.Idle s)
    (finished : v.finish r reason = .ok v') : Advances v v' := by
  rw [Serving.finish] at finished
  obtain ⟨mid, released, done⟩ := bind_ok finished
  cases done
  rw [← mid.modifyReq_id r]
  exact inv.leave going (releaseKvCache_releases released) (goes_updateFinishState reason)
    (absurd rfl) fun s isStreaming rejected _ => alone s isStreaming rejected

theorem Inv.retract (inv : v.Inv) (going : v.phase r ≠ .over) {outOfMemory : Bool}
    (alone : ∀ s ∈ v.streamingOf r, v.acceptedBy r = none → v.Idle s)
    (retracted : v.retract r outOfMemory = .ok v') : Advances v v' := by
  rw [Serving.retract] at retracted
  obtain ⟨mid, released, done⟩ := bind_ok retracted
  cases done
  have counted : ∀ req : Req,
      Req.Goes req { req with retractionCount := req.retractionCount + 1 } :=
    fun _ => ⟨.inl rfl, Nat.le_succ _⟩
  cases outOfMemory with
  | false =>
    rw [← v.modifyReq_id r] at released
    exact inv.leave going (releaseKvCache_releases released)
      (fun req => ⟨rfl, .refl req, counted req⟩) (fun _ => ⟨rfl, rfl⟩)
      fun s isStreaming rejected _ => alone s isStreaming rejected
  | true =>
    rw [if_pos rfl] at released
    exact inv.leave going (releaseKvCache_releases released)
      (fun req => ⟨rfl, ⟨.inl rfl, Nat.le_refl _⟩, counted req⟩) (absurd rfl)
      fun s isStreaming rejected _ => alone s isStreaming rejected

theorem Inv.abortQueued (inv : v.Inv) (queued : v.phase r = .queued) {holdsMamba : Bool}
    (aborted : v.abortQueued r holdsMamba = .ok v') : Advances v v' := by
  have going : v.phase r ≠ .over := by
    rw [queued]
    decide
  rw [Serving.abortQueued] at aborted
  cases holdsMamba with
  | false =>
    cases aborted
    exact inv.setPhase_over r
  | true =>
    obtain ⟨mid, released, done⟩ := bind_ok aborted
    cases done
    rw [← v.modifyReq_id r] at released
    rw [← mid.modifyReq_id r]
    refine inv.leave going (releaseKvCache_releases released)
      (fun req => ⟨rfl, .refl req, .refl req⟩) (absurd rfl) ?_
    -- a rejected request in the queue holds nothing
    intro s isStreaming rejected holds
    have isSession := (streamingOf_eq_some.mp isStreaming).1
    obtain ⟨-, done | ⟨-, idle⟩⟩ := inv.attached r s isSession (by simp [rejected])
    · exact absurd done going
    · rw [idle queued] at holds
      cases holds

theorem findActiveSlot_cases (v : Serving) (r : ReqId) :
    ∃ active w, v.findActiveSlot r = (active, { v with world := w }) ∧
      v.world.Ages Req.Kept w ∧ (active = true → (v.world.reqs r).toFinish = false) ∧
      (w.sessions = v.world.sessions ∨
        ∃ s ∈ v.streamingOf r, (v.world.sessions s).sessionId ∈ v.slots ∧
          (v.world.reqs r).toFinish = true ∧ (w.reqs r).session = none ∧
          ∀ other, other ≠ s → w.sessions other = v.world.sessions other) := by
  rw [findActiveSlot]
  cases isStreaming : v.streamingOf r with
  | none => exact ⟨false, v.world, rfl, .refl .refl _, nofun, .inl rfl⟩
  | some s =>
    dsimp only
    split
    · exact ⟨false, v.world, rfl, .refl .refl _, nofun, .inl rfl⟩
    next present =>
    split
    · next toFinish =>
      refine ⟨false, _, rfl, (v.world.abortReq_ages s).trans
        (.modifyReq .refl _ r ⟨.inr rfl, rfl, rfl, fun marked => marked⟩) .trans, nofun,
        .inr ⟨s, rfl, not_not.mp present, toFinish, ?_, fun other different => ?_⟩⟩
      · rw [World.modifyReq_reqs, if_pos rfl]
      · rw [World.modifyReq_sessions, World.abortReq, World.modifySession_other different]
    · next toFinish =>
      exact ⟨true, v.world, rfl, .refl .refl _, fun _ => by simpa using toFinish, .inl rfl⟩

/-- A scheduling attempt moves the request and what it holds, and may detach it. -/
theorem Inv.schedule (inv : v.Inv) (queued : v.phase r = .queued) {admitted : Bool}
    (alone : ∀ s ∈ v.streamingOf r, v.acceptedBy r = none →
      (v.world.sessions s).sessionId ∈ v.slots → v.Idle s) :
        Advances v (v.schedule r admitted) := by
  have going : v.phase r ≠ .over := by
    rw [queued]
    decide
  obtain ⟨active, w, found, ages, free, turns⟩ := v.findActiveSlot_cases r
  have isSchedule : v.schedule r admitted =
      (({ v with world := w } : Serving).setHolding r
        (v.holding r || active || admitted)).setPhase r
        (if admitted then .running else .queued) := by
    rw [Serving.schedule, found]
    cases admitted with
    | true => rfl
    | false =>
      refine Eq.symm (setPhase_eq_self ?_)
      exact queued
  have onward : Onward v (v.schedule r admitted) := by
    rw [isSchedule]
    refine ⟨ages.mono Req.Kept.goes, rfl, fun _ _ found => found,
      fun _ isClosed => .inl isClosed, fun x going' => ?_,
      fun x _ => ⟨(ages.reqs x).toFinish, (ages.reqs x).finishedReason⟩,
      fun x toFinish queued' idle => ?_⟩
    · by_cases isReq : x = r
      · rw [isReq]
        exact going
      · rw [setPhase_phase, if_neg isReq] at going'
        exact going'
    · rw [setPhase_phase] at queued'
      rw [setPhase_holding, setHolding_holding]
      split at queued'
      · next isReq =>
        subst isReq
        have waits : active = false ∧ admitted = false := by
          cases active <;> cases admitted <;> simp_all
        rw [if_pos rfl, idle queued, waits.1, waits.2]
        rfl
      · next other =>
        rw [if_neg other]
        exact idle queued'
  have isWorld : (v.schedule r admitted).world = w := by rw [isSchedule]; rfl
  refine inv.advance onward (by rw [isSchedule]; rfl) fun other streaming => ?_
  obtain same | ⟨s, isStreaming, present, toFinish, detached, others⟩ := turns
  · exact (inv.turn other streaming).keep onward (by rw [isWorld, same]) (by rw [isWorld, same])
  by_cases isSession : other = s
  · -- the flag is taken down, and the request that had the turn is not known any more
    subst isSession
    intro x live
    obtain under | rejected := inv.live_or_rejected going (streamingOf_eq_some.mp isStreaming).1
    · obtain rfl := inv.single other x r streaming (onward.live live) under
      exact .inr (.inr ⟨isWorld ▸ detached, (onward.kept x live.2).1 toFinish⟩)
    · exact absurd (onward.live live)
        (inv.not_live_of_idle (alone other isStreaming rejected present))
  · exact (inv.turn other streaming).keep onward (by rw [isWorld, others other isSession])
      (by rw [isWorld, others other isSession])

/-! ### New requests and sessions -/

structure Arrives (v : Serving) (owner : Option SessionRef) (w : World) : Prop
    extends v.world.Adds w where
  owned : ∀ s, owner = some s → s < v.world.nextSession
  attached : ∀ s, (w.reqs v.world.nextReq).session = some s → owner ≠ some s →
    owner = none ∧ (w.reqs v.world.nextReq).toFinish = true
  turn : ∀ s, (v.world.sessions s).streaming = true →
    (owner ≠ some s ∧ (w.sessions s).inflight = (v.world.sessions s).inflight ∧
      (w.sessions s).reqNodes = (v.world.sessions s).reqNodes) ∨
    (owner = some s ∧ (w.sessions s).inflight = true ∧ ∀ x, ¬ v.Live s x)

def enqueue (v : Serving) (owner : Option SessionRef) (w : World) : Serving :=
  { v with
    world := w
    phase := Function.update v.phase v.world.nextReq .queued
    holding := Function.update v.holding v.world.nextReq false
    acceptedBy := Function.update v.acceptedBy v.world.nextReq owner }

section Enqueue

variable (v : Serving) (owner : Option SessionRef) (w : World) (x : ReqId)

theorem enqueue_acceptedBy : (v.enqueue owner w).acceptedBy x =
    if x = v.world.nextReq then owner else v.acceptedBy x :=
  update_apply ..

theorem enqueue_phase : (v.enqueue owner w).phase x =
    if x = v.world.nextReq then .queued else v.phase x :=
  update_apply ..

theorem enqueue_holding : (v.enqueue owner w).holding x =
    if x = v.world.nextReq then false else v.holding x :=
  update_apply ..

end Enqueue

theorem live_before_enqueue (other : x ≠ v.world.nextReq) (live : (v.enqueue owner w).Live s x) :
    v.Live s x := by
  rw [Live, enqueue_acceptedBy, enqueue_phase, if_neg other, if_neg other] at live
  exact live

theorem owner_of_live (live : (v.enqueue owner w).Live s v.world.nextReq) : owner = some s := by
  rw [Live, enqueue_acceptedBy, if_pos rfl] at live
  exact live.1

theorem Inv.arrive (inv : v.Inv) (arrives : v.Arrives owner w) : (v.enqueue owner w).Inv := by
  refine ⟨fun x s accepted => ?_, fun x going => ?_, fun x s isSession notOwner => ?_,
    fun id s found => ?_, fun s isClosed => ?_, fun s x x' streaming live live' => ?_,
    fun s streaming x live => ?_⟩
  · rw [enqueue_acceptedBy] at accepted
    have older : x < v.world.nextReq + 1 ∧ s < v.world.nextSession := by
      split at accepted
      · next isNew => exact ⟨isNew ▸ Nat.lt_succ_self _, arrives.owned s accepted⟩
      · obtain ⟨isOld, known⟩ := inv.accepted x s accepted
        exact ⟨Nat.lt_succ_of_lt isOld, known⟩
    rw [← arrives.nextReq, ← arrives.nextSession] at older
    exact older
  · by_cases isNew : x = v.world.nextReq
    · rw [isNew]
      exact arrives.unfinished
    · rw [enqueue_phase, if_neg isNew] at going
      exact (arrives.reqs x isNew).finishedReason.trans (inv.unfinished x going)
  · rw [enqueue_acceptedBy] at notOwner ⊢
    rw [enqueue_phase, enqueue_holding]
    by_cases isNew : x = v.world.nextReq
    · subst isNew
      rw [if_pos rfl] at notOwner
      obtain ⟨rejected, marked⟩ := arrives.attached s isSession notOwner
      rw [if_pos rfl, if_pos rfl, if_pos rfl]
      exact ⟨rejected, .inr ⟨marked, fun _ => rfl⟩⟩
    · have kept := arrives.reqs x isNew
      have before : (v.world.reqs x).session = some s := by
        rcases kept.session with same | gone
        · rw [← same]
          exact isSession
        · exact absurd (gone.symm.trans isSession) nofun
      rw [if_neg isNew] at notOwner
      rw [if_neg isNew, if_neg isNew, if_neg isNew]
      obtain ⟨rejected, state⟩ := inv.attached x s before notOwner
      exact ⟨rejected, state.imp_right fun ⟨marked, free⟩ => ⟨kept.toFinish marked, free⟩⟩
  · obtain ⟨old, isId, notClosed⟩ := inv.indexed id s found
    exact ⟨arrives.nextSession ▸ old, (arrives.sessionId s).trans isId, notClosed⟩
  · exact arrives.nextSession ▸ inv.released s isClosed
  · have before : (v.world.sessions s).streaming = true :=
      (arrives.streaming s).symm.trans streaming
    by_cases isNew : x = v.world.nextReq <;> by_cases isNew' : x' = v.world.nextReq
    · rw [isNew, isNew']
    · -- nobody was under way when the new request was accepted
      subst isNew
      obtain ⟨notOwner, -⟩ | ⟨-, -, nobody⟩ := arrives.turn s before
      · exact absurd (owner_of_live live) notOwner
      · exact absurd (live_before_enqueue isNew' live') (nobody x')
    · subst isNew'
      obtain ⟨notOwner, -⟩ | ⟨-, -, nobody⟩ := arrives.turn s before
      · exact absurd (owner_of_live live') notOwner
      · exact absurd (live_before_enqueue isNew live) (nobody x)
    · exact inv.single s x x' before (live_before_enqueue isNew live)
        (live_before_enqueue isNew' live')
  · obtain ⟨notOwner, inflight, reqNodes⟩ | ⟨-, up, -⟩ :=
      arrives.turn s ((arrives.streaming s).symm.trans streaming)
    · have other : x ≠ v.world.nextReq := by
        rintro rfl
        exact notOwner (owner_of_live live)
      have kept := arrives.reqs x other
      obtain up | ⟨again, rid, n, items, older, isReq⟩ | ⟨detached, marked⟩ := inv.turn s
        ((arrives.streaming s).symm.trans streaming) x (live_before_enqueue other live)
      · exact .inl (inflight.trans up)
      · exact .inr (.inl ⟨Nat.lt_of_lt_of_eq again kept.retractionCount.symm, rid, n,
          reqNodes ▸ items, Nat.lt_of_lt_of_le older arrives.nextNode,
          (arrives.nodes n older).trans isReq⟩)
      · refine .inr (.inr ⟨?_, kept.toFinish marked⟩)
        rcases kept.session with same | gone
        · exact same.trans detached
        · exact gone
    · exact .inl up

theorem arrives_of_created {accepted : Bool} {f : Req → Req}
    (created : v.world.Created s accepted w) (known : s < v.world.nextSession)
    (kept : ∀ req, Req.Kept req (f req))
    (nobody : (v.world.sessions s).streaming = true → accepted = true → ∀ x, ¬ v.Live s x) :
    v.Arrives (if accepted then some s else none) (w.modifyReq v.world.nextReq f) := by
  have images := World.Ages.modifyReq .refl w v.world.nextReq (kept (w.reqs v.world.nextReq))
  refine ⟨created.toAdds.ages images, fun owner isOwner => ?_, fun owner isSession notOwner => ?_,
    fun other streaming => ?_⟩
  · cases accepted with
    | true =>
      cases isOwner
      exact known
    | false => cases isOwner
  · have new := images.reqs v.world.nextReq
    have isOwner : owner = s := by
      rcases new.session with same | gone
      · rw [same, created.session] at isSession
        exact (Option.some.inj isSession).symm
      · rw [gone] at isSession
        cases isSession
    subst isOwner
    cases accepted with
    | true => exact absurd rfl notOwner
    | false => exact ⟨rfl, new.toFinish (created.rejected rfl)⟩
  · -- the new request has the turn if it was accepted
    rw [World.modifyReq_sessions]
    by_cases same : other = s
    · subst same
      cases accepted with
      | true => exact .inr ⟨rfl, by rw [created.inflight streaming, Bool.or_true],
          nobody streaming rfl⟩
      | false => exact .inl ⟨nofun, by rw [created.inflight streaming, Bool.or_false],
          created.reqNodes streaming⟩
    · rw [created.others other same]
      refine .inl ⟨fun isOwner => ?_, rfl, rfl⟩
      cases accepted with
      | true => exact same (Option.some.inj isOwner).symm
      | false => cases isOwner

theorem Inv.generate (inv : v.Inv) {bosTokenId : Option Nat} {id : String} {input : ReqInput}
    {mm : Option MmRef} {now : Nat} (orderly : v.Orderly (.generate id input mm now))
    (generated : v.handleGenerateRequest bosTokenId id input mm now = .ok v') :
    ∃ owner w, v.Arrives owner w ∧ v' = v.enqueue owner w ∧
      ∀ s, owner = some s → v.sessions.lookup id = some s := by
  rw [handleGenerateRequest] at generated
  split at generated
  · next s isTarget =>
    obtain ⟨found, -⟩ := Option.filter_eq_some_iff.mp isTarget
    obtain ⟨⟨r, accepted, world⟩, creates, done⟩ := bind_ok generated
    obtain ⟨rfl, created⟩ := World.createReq_created creates
    have images : ∀ req, Req.Kept req (extendImageInputs mm req) := by
      cases mm <;> exact fun _ => ⟨.inl rfl, rfl, rfl, fun marked => marked⟩
    cases done
    refine ⟨if accepted then some s else none, _,
      arrives_of_created created (inv.indexed id s found).1 images ?_, rfl, ?_⟩
    · intro streaming isAccepted x live
      -- the flag was down, and no retracted or detached request is under way
      obtain ⟨never, notStranded⟩ :=
        orderly s isTarget streaming x (inv.accepted x s live.1).1 live
      obtain up | ⟨again, -⟩ | stranded := inv.turn s streaming x live
      · rw [created.free streaming isAccepted] at up
        cases up
      · omega
      · exact notStranded stranded
    · intro owner isOwner
      cases accepted with
      | true =>
        cases isOwner
        exact found
      | false => cases isOwner
  · cases generated
    refine ⟨none, _, ?_, rfl, nofun⟩
    refine ⟨(World.Marks.refl 0 v.world).adds rfl, nofun, fun s isSession => ?_,
      fun _ _ => .inl ⟨nofun, rfl, rfl⟩⟩
    cases (congrArg Req.session (update_self ..)).symm.trans isSession

end Serving

end Engram.Sessions
