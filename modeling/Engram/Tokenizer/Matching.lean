import Engram.Tokenizer.RestoreCalls

/-!
# Restore replies and their callers

All outputs go through one queue and none says which call it belongs to, so a caller receives its
own output only if the outputs come in the order of the callers. They do as long as callers line
up in the order of their requests and no stateful generation is outstanding together with another
call (`restore_replies_reach_callers`).
-/

namespace Engram.Tokenizer

open Lib Lib.Transition Memory Scheduler Snapshot List

variable {τ : Type} {cfg : Config}

/-! ### Which requests are not answered at once -/

theorem createFromSnapshot_unanswered [Torch τ] {s : State τ} {recv : RestoreReq}
    {conversation : Key} {snapshot : LoadedSnapshot τ} {newRid : String}
    (unanswered : (createFromSnapshot cfg s recv conversation snapshot newRid).2 = none) :
    recv.continuationIds.isSome = true := by
  by_contra plain
  unfold createFromSnapshot at unanswered
  split at unanswered
  · cases unanswered
  split at unanswered
  · cases unanswered
  simp only at unanswered
  split at unanswered
  · cases unanswered
  split at unanswered
  · cases unanswered
  split at unanswered
  · cases unanswered
  -- plain requests get the reply that names the new request
  · cases unanswered

/-- Only a request for a stateful generation is left without a reply. -/
theorem handleRestoreSnapshot_unanswered [Torch τ] {s : State τ} {source : SnapshotSource τ}
    {call : Call} {newRid : String}
    (unanswered : (handleRestoreSnapshot cfg s source call.recv newRid).2 = none) :
    call.stateful = true := by
  have staging : (handleStage cfg s source call.recv).2 ≠ none := by
    unfold handleStage
    simp only
    split
    · simp
    split
    · simp
    · simp
  unfold handleRestoreSnapshot at unanswered
  split at unanswered
  · next create =>
    unfold handleCreate at unanswered
    simp only at unanswered
    split at unanswered
    · cases unanswered
    split at unanswered
    · cases unanswered
    split at unanswered
    · cases unanswered
    · simp [Call.stateful, create, createFromSnapshot_unanswered unanswered]
  split at unanswered
  · exact absurd unanswered staging
  split at unanswered
  · cases unanswered
  split at unanswered
  · exact absurd unanswered staging
  unfold handleLive at unanswered
  simp only at unanswered
  split at unanswered
  · cases unanswered
  split at unanswered
  · cases unanswered
  split at unanswered
  · cases unanswered
  split at unanswered
  · cases unanswered
  split at unanswered
  · cases unanswered
  · cases unanswered

/-! ### The invariant -/

def Message.call? : Message → Option Call
  | .restoreOutput output => some output.call
  | .abort _ => none

@[simp] theorem Message.call?_restoreOutput (output : Output) :
    (Message.restoreOutput output).call? = some output.call := rfl

@[simp] theorem Message.call?_abort (notice : AbortNotice) : (Message.abort notice).call? = none :=
  rfl

namespace System

/-- The calls that have an output or are still to get one, in the order in which the
    outputs reach the result queue. A deferred one may never come. -/
def answers (s : System τ) : List Call :=
  s.resultQueue.items.map Output.call ++ s.messages.filterMap Message.call? ++ s.requests ++
    s.deferred.map Prod.snd

structure Matched (s : System τ) : Prop where
  order : s.outstanding = s.answers
  alone : ∀ call ∈ s.outstanding, call.stateful = true → s.outstanding = [call]
  deferred : ∀ entry ∈ s.deferred, entry.2.stateful = true
  balanced : s.resultQueue.Balanced
  received : ∀ pair ∈ s.received, pair.2.call = pair.1

variable {s s' : System τ} {model : Model τ} {event : Scheduler.Event τ}

@[simp] theorem newNotices_calls (before after : State τ) :
    (newNotices before after).filterMap Message.call? = [] := by
  unfold newNotices
  rw [filterMap_map]
  exact filterMap_eq_nil_iff.mpr (fun _ _ => rfl)

theorem Matched.deferred_cases (matched : s.Matched) :
    s.deferred = [] ∨ ∃ entry, s.deferred = [entry] ∧ s.outstanding = [entry.2] ∧
      s.resultQueue.items = [] ∧ s.messages.filterMap Message.call? = [] ∧ s.requests = [] := by
  cases listed : s.deferred with
  | nil => exact .inl rfl
  | cons entry rest =>
    have order := matched.order
    have member : entry.2 ∈ s.outstanding := by simp [order, answers, listed]
    have single := matched.alone entry.2 member (matched.deferred entry (by simp [listed]))
    have lengths := congrArg length order
    simp only [single, answers, listed, length_append, length_map, length_cons,
      length_nil] at lengths
    refine .inr ⟨entry, ?_, single, ?_, ?_, ?_⟩
    · rw [eq_nil_of_length_eq_zero (show rest.length = 0 by omega)]
    · exact eq_nil_of_length_eq_zero (by omega)
    · exact eq_nil_of_length_eq_zero (by omega)
    · exact eq_nil_of_length_eq_zero (by omega)

/-! ### Steps -/

/-- Calls line up in the order in which they were sent, and while no woken caller is
    still to run; and a stateful generation is never outstanding with another call. -/
def Orderly (s : System τ) : Event τ → Prop
  | .sendRestore recv => s.outstanding = [] ∨
      ∀ call ∈ s.outstanding ++ [⟨s.nextCall, recv⟩], call.stateful = false
  | .awaitResult call => s.resultQueue.woken = [] ∧ s.sent.head? = some call
  | _ => True

instance (s : System τ) : (event : Event τ) → Decidable (s.Orderly event)
  | .sendRestore recv => inferInstanceAs (Decidable (s.outstanding = [] ∨
      ∀ call ∈ s.outstanding ++ [(⟨s.nextCall, recv⟩ : Call)], call.stateful = false))
  | .awaitResult call =>
    inferInstanceAs (Decidable (s.resultQueue.woken = [] ∧ s.sent.head? = some call))
  | .wakeUp | .handleRestore _ _ | .generate _ | .abort _ | .advance _ | .prefill _ | .decode _
  | .dispatch => instDecidableTrue

section

variable (matched : s.Matched)

include matched

theorem sendRestore_matched (recv : RestoreReq)
    (orderly : s.Orderly (.sendRestore recv)) : (s.sendRestore recv).Matched := by
  have joined : (s.sendRestore recv).outstanding = s.outstanding ++ [⟨s.nextCall, recv⟩] := by
    simp [outstanding, sendRestore]
  -- no output is deferred: its call would be outstanding
  have undeferred : s.deferred = [] := by
    rcases matched.deferred_cases with none | ⟨entry, listed, single, _⟩
    · exact none
    · have stateful := matched.deferred entry (by simp [listed])
      rcases orderly with nobody | plain
      · simp [single] at nobody
      · rw [plain entry.2 (by simp [single])] at stateful
        cases stateful
  constructor
  · rw [joined, matched.order]
    simp [answers, sendRestore, undeferred]
  · rw [joined]
    intro call member stateful
    rcases orderly with nobody | plain
    · rw [nobody, nil_append] at member ⊢
      rw [mem_singleton.mp member]
    · rw [plain call member] at stateful
      cases stateful
  · exact matched.deferred
  · exact matched.balanced
  · exact matched.received

theorem Matched.receive {queue : AsyncQueue Output Call} {sent : List Call} {call : Call}
    {output : Output} (balanced : queue.Balanced)
    (first : s.outstanding = call :: (queue.line ++ sent))
    (oldest : s.resultQueue.items = output :: queue.items) :
    ({ s with sent }.receive call (some output, queue)).Matched := by
  have order := matched.order
  rw [first, answers, oldest] at order
  injection order with same rest
  constructor
  · simpa [outstanding, answers, System.receive] using rest
  · intro other (member : other ∈ queue.line ++ sent) stateful
    -- a stateful call had nobody beside it
    have single := matched.alone other (by rw [first]; exact mem_cons_of_mem _ member) stateful
    rw [first] at single
    injection single with _ nobody
    rw [nobody] at member
    cases member
  · exact matched.deferred
  · exact balanced
  · intro pair member
    rcases mem_append.mp member with old | new
    · exact matched.received pair old
    · rw [show pair = (call, output) by simpa using new]
      exact same.symm

theorem awaitResult_matched (call : Call)
    (orderly : s.Orderly (.awaitResult call)) : (s.awaitResult call).Matched := by
  obtain ⟨settled, next⟩ := orderly
  obtain ⟨sent, listed⟩ : ∃ sent, s.sent = call :: sent := head?_eq_some_iff.mp next
  have removed : s.sent.erase call = sent := by rw [listed, erase_cons_head]
  unfold awaitResult
  rw [if_pos (by simp [listed]), removed]
  cases found : s.resultQueue.items with
  | cons output items =>
    obtain ⟨nobody, taken, balanced⟩ := matched.balanced.get_of_items settled found call
    rw [taken]
    refine matched.receive balanced ?_ found
    have line : ({ s.resultQueue with items } : AsyncQueue Output Call).line = [] := nobody
    rw [outstanding, nobody, line, listed]
    rfl
  | nil =>
    obtain ⟨waits, balanced⟩ := matched.balanced.get_of_empty found call
    rw [waits]
    have same : ({ s with sent }.receive call (none, { s.resultQueue with
        getters := s.resultQueue.getters ++ [call] })).outstanding = s.outstanding := by
      simp [outstanding, System.receive, AsyncQueue.line, listed]
    constructor
    · rw [same, matched.order]
      rfl
    · rw [same]
      exact matched.alone
    · exact matched.deferred
    · exact balanced
    · simpa [System.receive] using matched.received

theorem wakeUp_matched : s.wakeUp.Matched := by
  unfold wakeUp
  cases woken : s.resultQueue.woken with
  | nil =>
    rw [show s.resultQueue.resume = none by simp [AsyncQueue.resume, woken]]
    exact matched
  | cons call woken' =>
    obtain ⟨output, items, found, resumed, balanced⟩ := matched.balanced.resume woken
    rw [resumed]
    have first : s.outstanding = call :: (({ s.resultQueue with woken := woken', items } :
        AsyncQueue Output Call).line ++ s.sent) := by
      simp [outstanding, AsyncQueue.line, woken]
    exact matched.receive balanced first found

theorem Matched.of_answers {sched : State τ} {requests : List Call} {deferred : List (Nat × Call)}
    {messages : List Message} {ridToState : List String}
    (same : s.answers = s.resultQueue.items.map Output.call ++
      messages.filterMap Message.call? ++ requests ++ deferred.map Prod.snd)
    (stateful : ∀ entry ∈ deferred, entry.2.stateful = true) :
    ({ s with sched, requests, deferred, messages, ridToState } : System τ).Matched where
  order := matched.order.trans same
  alone := matched.alone
  deferred := stateful
  balanced := matched.balanced
  received := matched.received

theorem handleRestore_matched [Torch τ] (cfg : Config)
    (source : SnapshotSource τ) (newRid : String) :
    (s.handleRestore cfg source newRid).Matched := by
  unfold handleRestore
  split
  · exact matched
  next call requests listed =>
  split
  · next sched reply handled =>
    refine matched.of_answers ?_ matched.deferred
    simp [answers, listed]
  · next sched handled =>
    have stateful : call.stateful = true :=
      handleRestoreSnapshot_unanswered (by rw [handled])
    have undeferred : s.deferred = [] := by
      rcases matched.deferred_cases with none | ⟨_, _, _, _, _, empty⟩
      · exact none
      · simp [listed] at empty
    -- the only outstanding call, so that its place in the order does not matter
    have member : call ∈ s.outstanding := by simp [matched.order, answers, listed]
    have lengths := congrArg length matched.order
    simp only [matched.alone call member stateful, answers, listed, length_append,
      length_cons, length_nil] at lengths
    have last : requests = [] := eq_nil_of_length_eq_zero (by omega)
    refine matched.of_answers ?_ ?_
    · simp [answers, listed, undeferred, last]
    · simp [undeferred, stateful]

theorem schedule_matched [Torch τ] (scheduled : s.schedule cfg model event = .ok s') :
    s'.Matched := by
  unfold schedule at scheduled
  split at scheduled
  · cases scheduled
  · cases scheduled
    refine matched.of_answers ?_ matched.deferred
    simp [answers]

end

theorem streamOutput_calls (deferred : List (Nat × Call)) (reqs : List Req) :
    (((streamOutput deferred reqs).1.map Output.call) ++
      (streamOutput deferred reqs).2.map Prod.snd).Perm (deferred.map Prod.snd) ∧
    ∀ entry ∈ (streamOutput deferred reqs).2, entry ∈ deferred := by
  induction reqs generalizing deferred with
  | nil => exact ⟨List.Perm.refl _, fun _ => id⟩
  | cons req reqs ih =>
    rw [streamOutput]
    split
    · split
      · next entry found =>
        obtain ⟨calls, kept⟩ := ih (deferred.erase entry)
        have member : entry ∈ deferred := mem_of_find?_eq_some found
        refine ⟨?_, fun other left => mem_of_mem_erase (kept other left)⟩
        have split := (perm_cons_erase member).map Prod.snd
        exact (calls.cons entry.2).trans split.symm
      · exact ih deferred
    · exact ih deferred

theorem iterate_matched [Torch τ] (matched : s.Matched)
    (iterated : s.iterate cfg model event = .ok s') : s'.Matched := by
  unfold iterate at iterated
  split at iterated
  · cases iterated
  next sched _ =>
  obtain ⟨calls, kept⟩ := streamOutput_calls s.deferred (sched.lastBatch ++ sched.runningBatch)
  cases iterated
  refine matched.of_answers ?_ (fun entry left => matched.deferred entry (kept entry left))
  -- with at most one deferred output, nothing overtakes
  rcases matched.deferred_cases with none | ⟨entry, listed, _, items, messages, requests⟩
  · rw [none, map_nil, perm_nil, append_eq_nil_iff] at calls
    simp [answers, none, calls.2, map_eq_nil_iff.mp calls.1]
  · rw [listed, map_singleton, perm_singleton] at calls
    simp [answers, listed, requests, ← calls, Function.comp_def]

theorem dispatch_matched (matched : s.Matched) (dispatched : s.dispatch = .ok s') : s'.Matched := by
  unfold dispatch at dispatched
  split at dispatched
  · cases dispatched
    exact matched
  · next output messages listed =>
    cases dispatched
    have same : ({ s with messages, resultQueue := s.resultQueue.putNowait output } :
        System τ).outstanding = s.outstanding := by
      simp [outstanding]
    constructor
    · rw [same, matched.order]
      simp [answers, listed]
    · rw [same]
      exact matched.alone
    · exact matched.deferred
    · exact matched.balanced.putNowait output
    · exact matched.received
  · next notice messages listed =>
    split at dispatched
    · cases dispatched
      refine matched.of_answers ?_ matched.deferred
      simp [answers, listed, filterMap_cons]
    · cases dispatched

end System

variable [Torch τ]

theorem step_matched {model : Model τ} {s s' : System τ} {event : Event τ} (matched : s.Matched)
    (orderly : s.Orderly event) (stepped : step cfg model s event = .ok s') :
    s'.Matched := by
  cases event with
  | sendRestore recv =>
    cases stepped
    exact System.sendRestore_matched matched recv orderly
  | awaitResult call =>
    cases stepped
    exact System.awaitResult_matched matched call orderly
  | wakeUp =>
    cases stepped
    exact System.wakeUp_matched matched
  | handleRestore source newRid =>
    cases stepped
    exact System.handleRestore_matched matched cfg source newRid
  | generate recv =>
    have registered : ({ s with ridToState := s.ridToState ++ [recv.rid] } : System τ).Matched :=
      matched.of_answers rfl matched.deferred
    exact System.schedule_matched registered stepped
  | abort recv => exact System.schedule_matched matched stepped
  | advance seconds =>
    have scheduled : s.schedule cfg model (.advance seconds) = .ok s' := stepped
    exact System.schedule_matched matched scheduled
  | prefill plan => exact System.iterate_matched matched stepped
  | decode plan => exact System.iterate_matched matched stepped
  | dispatch => exact System.dispatch_matched matched stepped

omit [Torch τ] in
theorem System.matched_start (sched : State τ) : ({ sched } : System τ).Matched where
  order := rfl
  alone := by simp [outstanding, AsyncQueue.line]
  deferred := by simp
  balanced := AsyncQueue.balanced_empty
  received := by simp

/-- In every interleaving in which callers line up in the order of their requests and no
    stateful generation is outstanding together with another call, each caller receives
    the output that was produced for its own request. -/
theorem restore_replies_reach_callers (cfg : Config) (model : Model τ) (sched : State τ)
    (events : List (Event τ)) (s : System τ)
    (orderly : Admissible (step cfg model) System.Orderly { sched } events)
    (completed : run cfg model { sched } events = .ok s) :
    ∀ pair ∈ s.received, pair.2.call = pair.1 := by
  have matched : s.Matched := run_invariant
    (fun _ _ _ matched orderly stepped => step_matched matched orderly stepped) events _ s
    (System.matched_start sched) orderly completed
  exact matched.received

theorem restore_replies_reach_callers_in_turn :
    let spec : TensorSpec := ⟨.float32, [1]⟩
    let tensor : IntTensor := ⟨.float32, [1], [5]⟩
    let cfg : Config := { cache := { kind := .mambaRadixCache }, ppMaxMicroBatchSize := 4 }
    let source := SnapshotSource.always
      { convStates := [tensor], temporalStates := tensor, fillIds := some [1, 2] }
    let first : RestoreReq := { rid := some "a" }
    let second : RestoreReq := { rid := some "b" }
    let stateful : RestoreReq :=
      { rid := some "c", createNewRequest := true, continuationIds := some [7] }
    let events : List (Event IntTensor) :=
      [.sendRestore first, .sendRestore second, .awaitResult ⟨0, first⟩, .awaitResult ⟨1, second⟩,
        .handleRestore source "x", .handleRestore source "y", .dispatch, .dispatch, .wakeUp,
        .wakeUp, .sendRestore stateful, .awaitResult ⟨2, stateful⟩,
        .handleRestore source "restored-1",
        .prefill { offers := [{ verdict := .admitted none true }],
                   outcomes := [{ finish := some .length }] },
        .dispatch, .wakeUp]
    ∃ s, run cfg Model.appending { sched := .initial 3 [spec] spec 1 } events = .ok s ∧
      s.received.map (·.1.number) = [0, 1, 2] ∧ ∀ pair ∈ s.received, pair.2.call = pair.1 := by
  intro spec tensor cfg source first second stateful events
  obtain ⟨s, completed, numbers⟩ : ∃ s, run cfg Model.appending
      { sched := .initial 3 [spec] spec 1 } events = .ok s ∧
        s.received.map (·.1.number) = [0, 1, 2] := by decide
  have orderly : Admissible (step cfg Model.appending) System.Orderly
    { sched := .initial 3 [spec] spec 1 } events := by decide
  exact ⟨s, completed, numbers,
    restore_replies_reach_callers cfg Model.appending _ events s orderly completed⟩

/-- The first caller waits for the output of a stateful generation and receives the reply
    to the second caller's request. -/
theorem restore_reply_reaches_other_caller :
    let spec : TensorSpec := ⟨.float32, [1]⟩
    let tensor : IntTensor := ⟨.float32, [1], [5]⟩
    let cfg : Config := { cache := { kind := .mambaRadixCache }, ppMaxMicroBatchSize := 4 }
    let source := SnapshotSource.always
      { convStates := [tensor], temporalStates := tensor, fillIds := some [1, 2] }
    let stateful : RestoreReq :=
      { rid := some "a", createNewRequest := true, continuationIds := some [7] }
    let plain : RestoreReq := { rid := some "b" }
    let events : List (Event IntTensor) :=
      [.sendRestore stateful, .awaitResult ⟨0, stateful⟩, .sendRestore plain,
        .awaitResult ⟨1, plain⟩, .handleRestore source "restored-1", .handleRestore source "y",
        .dispatch, .wakeUp]
    ∃ s, run cfg Model.appending { sched := .initial 3 [spec] spec 1 } events = .ok s ∧
      s.received = [(⟨0, stateful⟩, ⟨⟨1, plain⟩, .replied (.staged (some "b") (some "b") 0)⟩)] := by
  intro spec tensor cfg source stateful plain events
  decide

end Engram.Tokenizer
