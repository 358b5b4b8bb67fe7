import Engram.Scheduler.Reachable

/-!
# Restored states on their way through a batch

A hydrated request announces the state in its slot by `mamba_has_restored_state`.
The lemmas of this file follow one request, known by its number, through the phases
of an iteration: as long as the flag is set, the request has its slot, no copy and no
clear is pending for it, and only the request's own forward passes write it.
-/

namespace Engram.Scheduler

open Engram.Lib Engram.Lib.Transition Engram.Memory Engram.Restore Engram.Snapshot List

variable {τ : Type} {cache : TreeCache} {Q : Req → SlotState τ → Prop} {mem mem' : Memory τ}
  {req : Req} {reqs rest : List Req} {slot : Nat}

/-- The contents a restored state may have: fresh, before the first forward pass, or
    advanced by forward passes. -/
structure Lineage (model : Model τ) where
  fresh : SlotState τ → Prop
  advanced : SlotState τ → Prop
  ofFresh : ∀ state, fresh state → advanced state
  forward : ∀ state tokens, advanced state → advanced (model.forward state tokens)

/-- While the flag of request `uid` is set, the request has a slot, nothing is pending
    for that slot, and its content is as `Q` says. -/
def Req.Carries (uid : Nat) (Q : Req → SlotState τ → Prop) (mem : Memory τ) (req : Req) : Prop :=
  req.uid = uid → req.finishedReason = none → req.mambaHasRestoredState = true →
    ∃ slot, req.mambaPoolIdx = some slot ∧ req.mambaCowSrcIndex = none ∧
      req.mambaNeedsClear = false ∧ Q req (mem.pool.cache slot)

def Exclusive (mem : Memory τ) (reqs : List Req) : Prop :=
  ∀ slot, mem.count slot + ownersAmong reqs slot ≤ 1

namespace Exclusive

variable {cache : TreeCache} {mem mem' : Memory τ} {reqs reqs' rest : List Req} {req : Req}
  {slot : Nat}

theorem of_conserved {s : State τ} (conserved : s.Conserved) : Exclusive s.mem s.accounted := by
  intro slot
  rw [conserved slot]
  split <;> omega

theorem perm (exclusive : Exclusive mem reqs) (same : reqs.Perm reqs') : Exclusive mem reqs' := by
  intro slot
  rw [← ownersAmong_perm same]
  exact exclusive slot

theorem left (exclusive : Exclusive mem (reqs ++ rest)) : Exclusive mem reqs := by
  intro slot
  have all := exclusive slot
  rw [ownersAmong_append] at all
  omega

theorem moves (exclusive : Exclusive mem (reqs ++ rest)) (moves : Moves cache mem reqs mem' reqs') :
    Exclusive mem' (reqs' ++ rest) := by
  intro slot
  have same := (moves.beside rest).slots.count slot
  simp only [holding] at same
  rw [same]
  exact exclusive slot

/-- A slot with an owner among the requests is neither free nor in the tree. -/
theorem count_eq_zero (exclusive : Exclusive mem reqs) (member : req ∈ reqs)
    (owns : req.owns slot = true) : mem.count slot = 0 := by
  have all := exclusive slot
  have owned := ownersAmong_pos member owns
  omega

theorem others {before after : List Req} (exclusive : Exclusive mem (before ++ req :: after))
    (owns : req.owns slot = true) :
    ownersAmong before slot = 0 ∧ ownersAmong after slot = 0 := by
  have all := exclusive slot
  have self := ownersAmong_pos (mem_singleton_self req) owns
  rw [ownersAmong_append, ownersAmong_cons] at all
  omega

end Exclusive

namespace Req.Carries

variable {uid : Nat} {Q Q' : Req → SlotState τ → Prop} {mem mem' : Memory τ} {req req' : Req}

section

variable (carries : req.Carries uid Q mem) {reqs : List Req}

include carries

theorem spared (member : req ∈ reqs) (exclusive : Exclusive mem reqs) (spares : mem.Spares mem') :
    req.Carries uid Q mem' := by
  intro same unfinished flagged
  obtain ⟨slot, named, copy, clear, content⟩ := carries same unfinished flagged
  refine ⟨slot, named, copy, clear, ?_⟩
  rw [spares slot (exclusive.count_eq_zero member (Req.owns_of_named unfinished named))]
  exact content

theorem of_cache (same : mem'.pool.cache = mem.pool.cache) :
    req.Carries uid Q mem' := by
  unfold Req.Carries
  rw [same]
  exact carries

theorem relabel (number : req'.uid = req.uid)
    (reason : req'.finishedReason = none → req.finishedReason = none)
    (flag : req'.mambaHasRestoredState = true → req.mambaHasRestoredState = true)
    (slot : req'.mambaPoolIdx = req.mambaPoolIdx)
    (copy : req'.mambaCowSrcIndex = req.mambaCowSrcIndex)
    (clear : req'.mambaNeedsClear = req.mambaNeedsClear)
    (content : ∀ state, Q req state → Q' req' state) : req'.Carries uid Q' mem := by
  intro same unfinished flagged
  rw [slot, copy, clear]
  obtain ⟨own, named, uncopied, kept, holds⟩ :=
    carries (number ▸ same) (reason unfinished) (flag flagged)
  exact ⟨own, named, uncopied, kept, content _ holds⟩

theorem mono (weaker : ∀ state, Q req state → Q' req state) :
    req.Carries uid Q' mem :=
  carries.relabel rfl id id rfl rfl rfl weaker

end

theorem of_other (other : req.uid ≠ uid) : req.Carries uid Q mem :=
  fun same => absurd same other

end Req.Carries

theorem Req.Carries.beside {uid : Nat} {reqs' : List Req} (carries : req.Carries uid Q mem)
    (member : req ∈ rest) (exclusive : Exclusive mem (reqs ++ rest))
    (moves : Moves cache mem reqs mem' reqs') : req.Carries uid Q mem' := by
  intro same unfinished flagged
  obtain ⟨slot, named, copy, clear, content⟩ := carries same unfinished flagged
  have owned := ownersAmong_pos member (Req.owns_of_named unfinished named)
  have unowned : mem.count slot + ownersAmong reqs slot = 0 := by
    have all := exclusive slot
    rw [ownersAmong_append] at all
    omega
  have kept : mem'.pool.cache slot = mem.pool.cache slot := moves.slots.frame slot unowned
  exact ⟨slot, named, copy, clear, kept ▸ content⟩

namespace Lineage

variable {model : Model τ} (lineage : Lineage model)

def waiting (req : Req) (state : SlotState τ) : Prop :=
  lineage.fresh state ∧ req.inflightMiddleChunks = 0

/-- Between two chunks of the prompt. -/
def chunked (req : Req) (state : SlotState τ) : Prop :=
  lineage.advanced state ∧ req.inflightMiddleChunks = 0 ∧ req.fillIds ≠ []

def stashed (req : Req) (state : SlotState τ) : Prop :=
  lineage.chunked req state ∧ 0 < req.prefixLen

def formed (req : Req) (state : SlotState τ) : Prop :=
  lineage.advanced state ∧ (req.prefixLen = 0 → lineage.fresh state) ∧
    (req.inChunk = true → req.inflightMiddleChunks = 1 ∧ req.fillIds ≠ [])

def forwarded (req : Req) (state : SlotState τ) : Prop :=
  lineage.advanced state ∧
    (req.inChunk = true → req.inflightMiddleChunks = 1 ∧ req.fillIds ≠ [])

def running (_ : Req) (state : SlotState τ) : Prop :=
  lineage.advanced state

end Lineage

section Admission

variable {model : Model τ} {lineage : Lineage model} {uid : Nat} {cache : TreeCache}

theorem truncate_carries (carries : req.Carries uid Q mem) (chunk : Option Nat)
    (facts : ∀ state, Q req state → lineage.advanced state ∧
      (req.prefixLen = 0 → lineage.fresh state) ∧ req.inflightMiddleChunks = 0) :
    (req.truncate chunk).Carries uid lineage.formed mem := by
  unfold Req.truncate
  split
  · refine carries.mono (fun state holds => ?_)
    obtain ⟨advanced, first, none⟩ := facts state holds
    exact ⟨advanced, first, by simp [Req.inChunk, none]⟩
  · next len =>
    split
    · next longer =>
      refine carries.relabel rfl id id rfl rfl rfl (fun state holds => ?_)
      obtain ⟨advanced, first, none⟩ := facts state holds
      refine ⟨advanced, first, fun _ => ⟨by simp [none], ?_⟩⟩
      -- a chunk has at least one token
      rw [← length_pos_iff, length_take]
      omega
    · refine carries.mono (fun state holds => ?_)
      obtain ⟨advanced, first, none⟩ := facts state holds
      exact ⟨advanced, first, by simp [Req.inChunk, none]⟩

/-- What the admission of a hydrated request needs: it is not refused, and the lookup
    finds no node with a Mamba state. -/
def Undisturbed (cache : TreeCache) (uid : Nat) (req : Req) (offer : Offer) : Prop :=
  req.uid = uid → req.mambaHasRestoredState = true →
    offer.verdict ≠ .refused ∧ (cache.keepsMamba = true → offer.hit.slot = none)
deriving Decidable

theorem Undisturbed.node_eq_none {offer : Offer} (undisturbed : Undisturbed cache uid req offer)
    (same : req.uid = uid) (flagged : req.mambaHasRestoredState = true) :
    offer.hit.node cache mem = none := by
  unfold Match.node
  split
  · next keeps => rw [(undisturbed same flagged).2 keeps, Option.filter_none]
  · rfl

theorem initNextRoundInput_carries {offer : Offer} (carries : req.Carries uid lineage.waiting mem)
    (undisturbed : Undisturbed cache uid req offer) (locked : List Nat) :
    Ends (fun _ => True) (fun out => out.2.Carries uid lineage.waiting out.1 ∧
        out.1.pool.cache = mem.pool.cache ∧ out.2.uid = req.uid ∧
        out.2.mambaHasRestoredState = req.mambaHasRestoredState)
      (initNextRoundInput cache locked mem req offer.hit) := by
  refine (initNextRoundInput_cases tolerates_all cache locked mem req offer.hit).mono ?_
  rintro ⟨mem', _⟩ (⟨found, ⟨⟩⟩ | ⟨node, hit, rest⟩)
  · exact ⟨carries.relabel rfl id id rfl rfl rfl (fun _ => id), rfl, rfl, rfl⟩
  -- a hit is excluded for the tracked request, so there is nothing to carry
  have untracked : req.uid = uid → ¬ req.mambaHasRestoredState = true := by
    intro same flagged
    rw [undisturbed.node_eq_none same flagged] at hit
    cases hit
  obtain ⟨rearranged, rfl⟩ | ⟨slot, _, takes, rfl⟩ := rest
  · exact ⟨fun same _ flagged => absurd flagged (untracked same), rearranged.cache, rfl, rfl⟩
  · exact ⟨fun same _ flagged => absurd flagged (untracked same), takes.cache, rfl, rfl⟩

theorem revertMambaIdx_cache (mem : Memory τ) (req : Req) :
    (revertMambaIdx mem req).1.pool.cache = mem.pool.cache := by
  unfold revertMambaIdx
  split <;> rfl

theorem admitLoop_carries (limit : Nat) (locked : List Nat) {canRun queue : List Req}
    {offers : List Offer}
    (undisturbed : ∀ pair ∈ queue.zip offers, Undisturbed cache uid pair.1 pair.2)
    (formed : ∀ req ∈ canRun, req.Carries uid lineage.formed mem)
    (waiting : ∀ req ∈ queue, req.Carries uid lineage.waiting mem) :
    Ends (fun _ => True) (fun out => (∀ req ∈ out.2.1, req.Carries uid lineage.formed out.1) ∧
        (∀ req ∈ out.2.2, req.Carries uid lineage.waiting out.1) ∧
        out.1.pool.cache = mem.pool.cache)
      (admitLoop cache limit locked mem canRun queue offers) := by
  refine (admitLoop_induction (motive := fun now running queued left =>
    (∀ pair ∈ queued.zip left, Undisturbed cache uid pair.1 pair.2) ∧
      (∀ req ∈ running, req.Carries uid lineage.formed now) ∧
      (∀ req ∈ queued, req.Carries uid lineage.waiting now) ∧ now.pool.cache = mem.pool.cache)
    ?_ ⟨undisturbed, formed, waiting, rfl⟩).mono fun _ kept => kept.elim fun _ => And.right
  rintro now running req queued offer _ ⟨undisturbed, formed, waiting, content⟩
  have allowed := undisturbed (req, offer) (by simp)
  obtain ⟨head, later⟩ := forall_mem_cons.mp waiting
  refine (initNextRoundInput_carries head allowed _).mono ?_
  rintro ⟨matched, started⟩ ⟨carries, same, number, flag⟩
  constructor
  · intro refused
    rw [revertMambaIdx_slot]
    have same := (revertMambaIdx_cache matched started).trans same
    refine ⟨by simp, fun other member => (formed other member).of_cache same,
      forall_mem_cons.mpr ⟨?_, fun other member => (later other member).of_cache same⟩,
      same.trans content⟩
    -- the tracked request is not refused
    intro isUid _ flagged
    exact absurd refused (allowed (number.symm.trans isUid) (flag.symm.trans flagged)).1
  · -- an admitted request takes its state along
    intro _ chunk
    refine ⟨fun pair member => undisturbed pair (by simp [member]), ?_,
      fun other member => (later other member).of_cache same, same.trans content⟩
    intro other member
    rcases mem_append.mp member with member | member
    · exact (formed other member).of_cache same
    · rw [mem_singleton.mp member]
      refine truncate_carries (Q := lineage.waiting) ?_ chunk ?_
      · exact carries.relabel rfl id id rfl rfl rfl (fun _ => id)
      · intro state holds
        exact ⟨lineage.ofFresh state holds.1, fun _ => holds.1, holds.2⟩

end Admission

/-! ### The forward pass -/

section Forward

variable {model : Model τ} {lineage : Lineage model} {uid : Nat}

theorem exists_sole_owner (exclusive : Exclusive mem reqs)
    (unfinished : ∀ other ∈ reqs, other.finishedReason = none) (member : req ∈ reqs)
    (named : req.mambaPoolIdx = some slot) :
    ∃ before after, reqs = before ++ req :: after ∧ Unnamed before slot ∧ Unnamed after slot := by
  obtain ⟨before, after, rfl⟩ := append_of_mem member
  obtain ⟨none, nobody⟩ :=
    exclusive.others (Req.owns_of_named (unfinished req member) named)
  refine ⟨before, after, rfl, unnamed_of_unowned ?_ none, unnamed_of_unowned ?_ nobody⟩
  · exact fun other held => unfinished other (mem_append_left _ held)
  · exact fun other held => unfinished other
      (mem_append_right _ (mem_cons_of_mem req held))

theorem settled_of_owner (exclusive : Exclusive mem reqs)
    (unfinished : ∀ other ∈ reqs, other.finishedReason = none) (member : req ∈ reqs)
    (named : req.mambaPoolIdx = some slot) (copy : req.mambaCowSrcIndex = none)
    (clear : req.mambaNeedsClear = false) :
    Settled reqs slot := by
  obtain ⟨before, after, rfl, unnamedBefore, unnamedAfter⟩ :=
    exists_sole_owner exclusive unfinished member named
  intro other held names
  rcases mem_append.mp held with held | held
  · exact absurd names (unnamedBefore other held)
  rcases mem_cons.mp held with rfl | held
  · exact ⟨copy, clear⟩
  · exact absurd names (unnamedAfter other held)

variable [Torch τ] {batch : List Req}

theorem prepareForExtend_carries {cfg : Config} {running canRun : List Req} {plan : PrefillPlan}
    (exclusive : Exclusive mem (canRun ++ rest))
    (unfinished : ∀ req ∈ canRun, req.finishedReason = none)
    (formed : ∀ req ∈ canRun, req.Carries uid lineage.formed mem)
    (completed : prepareForExtend cfg running mem canRun plan = .ok (mem', batch)) :
    ∀ req ∈ batch, req.Carries uid lineage.formed mem' := by
  obtain ⟨⟨allocated, prepared⟩, alloc, done⟩ := bind_ok completed
  obtain ⟨moves, content, origin⟩ := (allocReqSlots_moves tolerates_all cfg.cache _ mem unfinished
    plan.lru (fun _ => ⟨trivial, trivial⟩)).yields alloc
  have evicted := evictForKv_rearranged allocated (lockedSlots (running ++ canRun)) plan.kvEviction
  cases done
  generalize allocated.evictForKv (lockedSlots (running ++ canRun)) plan.kvEviction = room
    at evicted ⊢
  have exclusive' : Exclusive room prepared :=
    ((exclusive.moves moves).moves (evicted.moves prepared : Moves cfg.cache ..)).left
  have unfinished' : ∀ req ∈ prepared, req.finishedReason = none := by
    intro req member
    obtain ⟨old, held, related⟩ := exists_of_forall₂ origin req member
    exact related.facts.1.trans (unfinished old held)
  intro req member
  obtain ⟨ready, held, rfl⟩ := mem_map.mp member
  obtain ⟨old, admitted, row, _, _, kept | ⟨unnamed, slot, rfl⟩⟩ :=
    exists_of_forall₂ origin ready held
  · intro same open_ flagged
    obtain ⟨_, rfl⟩ := kept
    obtain ⟨slot, named, copy, clear, facts⟩ := formed old admitted same open_ flagged
    -- nothing is pending for its slot, so the deferred operations spare it
    have settled := settled_of_owner exclusive' unfinished' held named copy clear
    refine ⟨slot, named, rfl, rfl, ?_⟩
    rw [(runDeferred_keeps room.pool prepared).cache slot settled, evicted.cache, content]
    exact facts
  · -- a request that needed a slot does not carry a state
    intro same open_ flagged
    obtain ⟨slot, named, _⟩ := formed old admitted same open_ flagged
    simp [named] at unnamed

/-- The forward pass advances the state of every request of the batch by its own tokens. -/
theorem forwardExtend_carries (exclusive : Exclusive mem batch)
    (unfinished : ∀ req ∈ batch, req.finishedReason = none)
    (formed : ∀ req ∈ batch, req.Carries uid lineage.formed mem) :
    ∀ req ∈ batch, req.Carries uid lineage.forwarded (mem.forwardExtend model batch) := by
  intro req member same open_ flagged
  obtain ⟨slot, named, copy, clear, advanced, _, chunk⟩ := formed req member same open_ flagged
  refine ⟨slot, named, copy, clear, ?_, chunk⟩
  obtain ⟨before, after, rfl, unnamedBefore, unnamedAfter⟩ :=
    exists_sole_owner exclusive unfinished member named
  have first := forwardExtend_keeps model before mem.pool
  simp only [Memory.forwardExtend, foldl_append, foldl_cons]
  rw [(forwardExtend_keeps model after _).cache slot unnamedAfter]
  simp only [forwardExtend, named, MambaPool.setSlot_cache_self]
  -- the flag makes the slot's own state the initial one
  have initial : initialState (before.foldl (forwardExtend model) mem.pool) req slot =
      mem.pool.cache slot := by
    simp only [initialState, flagged, Bool.or_true]
    exact first.cache slot unnamedBefore
  rw [initial]
  exact lineage.forward _ _ advanced

omit [Torch τ] in
theorem forwardDecode_carries (exclusive : Exclusive mem batch)
    (unfinished : ∀ req ∈ batch, req.finishedReason = none)
    (running : ∀ req ∈ batch, req.Carries uid lineage.running mem) :
    ∀ req ∈ batch, req.Carries uid lineage.running (mem.forwardDecode model batch) := by
  intro req member same open_ flagged
  obtain ⟨slot, named, copy, clear, advanced⟩ := running req member same open_ flagged
  refine ⟨slot, named, copy, clear, ?_⟩
  obtain ⟨before, after, rfl, unnamedBefore, unnamedAfter⟩ :=
    exists_sole_owner exclusive unfinished member named
  have first := forwardDecode_keeps model before mem.pool
  simp only [Memory.forwardDecode, foldl_append, foldl_cons]
  unfold Lineage.running
  rw [(forwardDecode_keeps model after _).cache slot unnamedAfter]
  simp only [forwardDecode, named, MambaPool.setSlot_cache_self]
  rw [first.cache slot unnamedBefore]
  exact lineage.forward _ _ advanced

end Forward

/-! ### Results -/

section Results

variable {model : Model τ} {lineage : Lineage model} {uid : Nat}

theorem Processed.carries {other : Memory τ} {req' : Req}
    (processed : Processed cache mem req mem' req') (unfinished : req.finishedReason = none)
    (carries : req.Carries uid lineage.running other) : req'.Carries uid lineage.running other := by
  intro same open_ flagged
  obtain ⟨slot, copy, clear, flag⟩ := processed.goesOn open_
  rw [slot, copy, clear]
  exact carries (processed.uid ▸ same) unfinished (flag ▸ flagged)

/-- The results leave the states of the requests of the batch, and of all others, alone. -/
theorem processEach_carries {P : Fault → Prop}
    {process : List Nat → Memory τ → Req → Outcome → Except Fault (Memory τ × Req)}
    (each : ∀ locked mem req outcome, req.Ready →
      Ends P (fun out => Processed cache mem req out.1 out.2) (process locked mem req outcome))
    (locked : List Nat) (ready : ∀ req ∈ reqs, req.Ready) (outcomes : List Outcome)
    (exclusive : Exclusive mem (reqs ++ rest))
    (carries : ∀ req ∈ reqs, req.Carries uid lineage.running mem) :
    Ends P (fun out => (∀ req ∈ out.2, req.Carries uid lineage.running out.1) ∧
        ∀ Q, ∀ req ∈ rest, req.Carries uid Q mem → req.Carries uid Q out.1)
      (processEach process locked mem [] reqs outcomes) := by
  refine (processEach_induction (motive := fun now processed left => (∀ req ∈ left, req.Ready) ∧
    Exclusive now (processed ++ left ++ rest) ∧
    (∀ req ∈ processed ++ left, req.Carries uid lineage.running now) ∧
    ∀ Q, ∀ req ∈ rest, req.Carries uid Q mem → req.Carries uid Q now) ?_ locked outcomes
    ⟨ready, exclusive, carries, fun _ _ _ => id⟩).mono ?_
  · rintro now processed req left _ _ ⟨ready, exclusive, carries, kept⟩
    obtain ⟨head, later⟩ := forall_mem_cons.mp ready
    refine (each _ now req _ head).mono ?_
    rintro ⟨next, done⟩ step
    have spared : ∀ {Q : Req → SlotState τ → Prop} {other : Req},
        other ∈ processed ++ req :: left ++ rest → other.Carries uid Q now →
          other.Carries uid Q next :=
      fun member carries => carries.spared member exclusive step.spares
    refine ⟨later, ?_, ?_, fun Q other member carries =>
      spared (by simp [member]) (kept Q other member carries)⟩
    · have turned :
          (processed ++ req :: left ++ rest).Perm ([req] ++ (processed ++ left ++ rest)) := by
        grind
      refine ((exclusive.perm turned).moves step.moves).perm ?_
      grind
    intro other member
    simp only [mem_append, mem_singleton] at member
    -- only the request itself has changed
    rcases member with (old | rfl) | later
    · exact spared (by simp [old]) (carries other (by simp [old]))
    · exact step.carries head.1 (spared (by simp) (carries req (by simp)))
    · exact spared (by simp [later]) (carries other (by simp [later]))
  · rintro out ⟨-, -, carries, kept⟩
    exact ⟨by simpa using carries, kept⟩

end Results

end Engram.Scheduler
