import Engram.Lib.Transition
import Engram.Tier.Effects

/-!
# Durability of saved states

A state that `save_to_warm_tier` has accepted is in host memory until it is demoted, and then on
disk as the latest snapshot of its conversation (`saved_state_durable_with_room`). This breaks
where the pool evicts, since an evicted state is written nowhere, and where disk has a turn above
the demoted one.
-/

namespace Engram.Tier

open Lib Lib.Transition Snapshot

variable {τ : Type}

/-- The tiers together with what was saved. -/
structure Saves (τ : Type) where
  tiers : TierState τ
  /-- history: the tensors of the last save of a conversation that returned `True`, until
      its retention expires -/
  last : String → Option (List τ × τ) := fun _ => none

section Step

variable [Torch τ] (cfg : TierConfig)

/-- What a call adds to the history and what expires in it. -/
def Saves.lastAfter (now : Nat) (s : Saves τ) : TierCall τ → String → Option (List τ × τ)
  | .saveToWarm conversationId entry policy =>
    match (saveToWarmTier cfg conversationId entry policy now s.tiers).1 with
    | .ok true =>
      Function.update s.last conversationId (some (entry.convStates, entry.temporalStates))
    | _ => s.last
  | .cleanup => fun conversationId =>
    let needed := s.tiers.tracker.checkTransitionsNeeded cfg.timeouts now
    if conversationId ∈ needed.coldToArchived then none else s.last conversationId
  | _ => s.last

omit [Torch τ] in
def Highest (s : TierState τ) (conversationId : String) (turn : Int) : Prop :=
  ∀ other, HasSnapshot cfg.baseDir s.disk ⟨conversationId, .turn other⟩ → other ≤ turn

def Promotable (now : Nat) (s : TierState τ) (conversationId : String)
    (turnNumber : Option Int) : Prop :=
  PromotionFits cfg now s conversationId turnNumber ∧
    ∀ turn, turnNumber = some turn → s.hostPool.hasState conversationId = false →
      HasSnapshot cfg.baseDir s.disk ⟨conversationId, .turn turn⟩ →
      Highest cfg s conversationId turn

omit [Torch τ] in
def Demotable (s : TierState τ) (conversationId : String) : Prop :=
  ∀ entry, s.hostPool.pool.lookup conversationId = some entry →
    cfg.modelMismatch (some (entry.modelName.getD "unknown")) = false ∧
      Highest cfg s conversationId (entry.restored.metadata.turnNumber.getD 0)

def KeepsSaved (s : Saves τ) (event : Nat × TierCall τ) : Prop :=
  match event.2 with
  | .saveToWarm _ entry _ =>
    (validateStateTensors entry.convStates entry.temporalStates none false).isValid = true →
      s.tiers.hostPool.HasRoom cfg.limits entry.memoryBytes ∧
        cfg.modelMismatch entry.modelName = false
  | .restoreFromWarm _ => True
  | .restoreFromCold _ _ => True
  | .restore conversationId turnNumber => Promotable cfg event.1 s.tiers conversationId turnNumber
  | .loadReference _ reference => Promotable cfg event.1 s.tiers reference none
  | .demote conversationId => Demotable cfg s.tiers conversationId
  | .cleanup =>
    ∀ conversationId ∈ (s.tiers.tracker.checkTransitionsNeeded cfg.timeouts event.1).warmToCold,
      Demotable cfg s.tiers conversationId

end Step

/-! ### Where a saved state is -/

section Kept

variable {cfg : TierConfig} {v : TierView τ} {cid : String} {state : List τ × τ}
  {entry : HostPoolEntry τ} {snapshot : StoredSnapshot τ}

def Kept (cfg : TierConfig) (v : TierView τ) (conversationId : String) (state : List τ × τ) :
    Prop :=
  (∃ entry, v.held conversationId = some entry ∧
    (entry.convStates, entry.temporalStates) = state ∧
    cfg.modelMismatch entry.modelName = false) ∨
  v.held conversationId = none ∧ v.tier conversationId = some .cold ∧
    ∃ turn snapshot, IsLatest v.store conversationId turn snapshot ∧
      (snapshot.convStates, snapshot.temporalStates) = state ∧
      cfg.modelMismatch (some snapshot.metadata.modelName) = false

theorem Kept.sameAt {v' : TierView τ} (kept : Kept cfg v cid state)
    (same : v.SameAt v' cid) : Kept cfg v' cid state := by
  rcases kept with ⟨entry, isHeld, rest⟩ | ⟨absent, cold, turn, snapshot, latest, rest⟩
  · exact .inl ⟨entry, same.held.trans isHeld, rest⟩
  · exact .inr ⟨same.held.trans absent, same.tier.trans cold, turn, snapshot,
      latest.congr (fun _ => same.store _), rest⟩

theorem Kept.promote (kept : Kept cfg v cid state) (absent : v.held cid = none) {turn : Int}
    (latest : IsLatest v.store cid turn snapshot) :
    Kept cfg (v.warm cid (promoted snapshot)) cid state := by
  rcases kept with ⟨entry, isHeld, -⟩ | ⟨-, -, turn', snapshot', latest', same, agrees⟩
  · cases absent.symm.trans isHeld
  · obtain ⟨rfl, rfl⟩ := latest.unique latest'
    exact .inl ⟨promoted snapshot, by simp, same, agrees⟩

theorem Kept.demote (kept : Kept cfg v cid state) {now : Nat}
    (isHeld : v.held cid = some entry) (registered : v.tier cid ≠ none)
    (agrees : cfg.modelMismatch (some (entry.modelName.getD "unknown")) = false)
    (highest : ∀ turn, (v.store ⟨cid, .turn turn⟩).isSome = true →
      turn ≤ entry.restored.metadata.turnNumber.getD 0) :
    Kept cfg (v.demote cid (demoted cid now entry.restored)) cid
      state := by
  rcases kept with ⟨entry', isHeld', same, -⟩ | ⟨absent, -⟩
  · cases isHeld.symm.trans isHeld'
    refine .inr ⟨by simp, by simp [registered],
      (demoted cid now entry.restored).metadata.turnNumber,
      demoted cid now entry.restored, ?_, same, agrees⟩
    exact (IsLatest.update _ highest).1
  · cases absent.symm.trans isHeld

end Kept

/-! ### One call -/

section Calls

variable [Torch τ] {cfg : TierConfig} {s : TierState τ} {last : String → Option (List τ × τ)}
  {cid : String} {entry : HostPoolEntry τ} {snapshot : StoredSnapshot τ}

def AllKept (cfg : TierConfig) (s : TierState τ) (last : String → Option (List τ × τ)) : Prop :=
  ∃ v, Views cfg s v ∧
    (∀ conversationId, v.held conversationId ≠ none → v.tier conversationId ≠ none) ∧
    ∀ conversationId state, last conversationId = some state → Kept cfg v conversationId state

omit [Torch τ] in
theorem registered_warm {v : TierView τ}
    (registered : ∀ other, v.held other ≠ none → v.tier other ≠ none) (other : String)
    (isHeld : (v.warm cid entry).held other ≠ none) :
    (v.warm cid entry).tier other ≠ none := by
  by_cases same : other = cid
  · simp [same]
  · simp only [TierView.warm_held, if_neg same] at isHeld
    simpa [same] using registered other isHeld

theorem AllKept.saveToWarmTier (kept : AllKept cfg s last)
    (valid : (validateStateTensors entry.convStates entry.temporalStates none false).isValid = true)
    (room : s.hostPool.HasRoom cfg.limits entry.memoryBytes)
    (agrees : cfg.modelMismatch entry.modelName = false) (cid : String) (policy : ValidationPolicy)
    (now : Nat) :
    (saveToWarmTier cfg cid entry policy now s).1 = .ok true ∧
      AllKept cfg (saveToWarmTier cfg cid entry policy now s).2
        (Function.update last cid (some (entry.convStates, entry.temporalStates))) := by
  obtain ⟨v, views, registered, states⟩ := kept
  obtain ⟨s', saved, views'⟩ :=
    views.saveToWarmTier_of_hasRoom valid room cid policy now
  rw [saved]
  refine ⟨rfl, _, views', registered_warm registered, ?_⟩
  intro other state isLast
  by_cases same : other = cid
  · rw [same, Function.update_self] at isLast
    rw [same]
    exact .inl ⟨entry, by simp, Option.some.inj isLast, agrees⟩
  · rw [Function.update_of_ne same] at isLast
    exact (states other state isLast).sameAt (TierView.sameAt_warm same _)

theorem AllKept.promote {v : TierView τ} (views : Views cfg s v)
    (registered : ∀ other, v.held other ≠ none → v.tier other ≠ none)
    (states : ∀ other state, last other = some state → Kept cfg v other state)
    {turnNumber : Option Int} {now : Nat} (promotable : Promotable cfg now s cid turnNumber)
    (absent : v.held cid = none) (selected : Selected v.store cid turnNumber snapshot)
    {s' : TierState τ} (views' : Views cfg s' (v.warm cid (promoted snapshot))) :
    AllKept cfg s' last := by
  have latest : ∃ turn, IsLatest v.store cid turn snapshot := by
    cases turnNumber with
    | none => exact selected
    | some turn =>
      have stored : v.store ⟨cid, .turn turn⟩ = some snapshot := selected
      have notInPool : s.hostPool.hasState cid = false :=
        MambaHostPool.hasState_of_none ((views.held cid).trans absent)
      have highest := promotable.2 turn rfl notInPool
        (views.hasSnapshot_iff.mpr (by rw [stored]; rfl))
      exact ⟨turn, stored, fun other isStored => highest other (views.hasSnapshot_iff.mpr isStored)⟩
  obtain ⟨turn, latest⟩ := latest
  refine ⟨_, views', registered_warm registered, ?_⟩
  intro other state isLast
  by_cases same : other = cid
  · subst same
    exact (states other state isLast).promote absent latest
  · exact (states other state isLast).sameAt (TierView.sameAt_warm same _)

section

variable (kept : AllKept cfg s last)

include kept

theorem AllKept.demoteToColdTier (demotable : Demotable cfg s cid) (now : Nat) :
    AllKept cfg (demoteToColdTier cfg cid now s).2 last := by
  obtain ⟨v, views, registered, states⟩ := kept
  obtain ⟨v', views', rfl | ⟨entry, isHeld, rfl⟩⟩ := views.demoteToColdTier_effect cid now
  · exact ⟨v', views', registered, states⟩
  obtain ⟨agrees, below⟩ := demotable entry ((views.held _).trans isHeld)
  refine ⟨_, views', ?_, ?_⟩
  · intro other isHeld'
    by_cases same : other = cid
    · simp [same] at isHeld'
    · simp only [TierView.demote_held, if_neg same] at isHeld'
      simpa [same] using registered other isHeld'
  intro other state isLast
  by_cases same : other = cid
  · subst same
    have inTracker : v.tier other ≠ none := registered other (by simp [isHeld])
    exact (states other state isLast).demote isHeld inTracker agrees
      (fun turn stored => below turn (views.hasSnapshot_iff.mpr stored))
  · exact (states other state isLast).sameAt (TierView.sameAt_demote same _)

theorem AllKept.demotable {other : String}
    (demotable : Demotable cfg s other) (cid : String) (now : Nat) :
    Demotable cfg (Tier.demoteToColdTier cfg cid now s).2 other := by
  obtain ⟨v, views, -⟩ := kept
  obtain ⟨v', views', effect⟩ := views.demoteToColdTier_effect cid now
  intro entry found
  rw [views'.held] at found
  have same : v.SameAt v' other := by
    rcases effect with rfl | ⟨held, -, rfl⟩
    · exact ⟨rfl, rfl, fun _ => rfl⟩
    · -- the demoted conversation itself is no longer held
      apply TierView.sameAt_demote
      rintro rfl
      simp at found
  obtain ⟨agrees, highest⟩ := demotable entry ((views.held _).trans (same.held.symm.trans found))
  refine ⟨agrees, ?_⟩
  intro turn stored
  rw [views'.hasSnapshot_iff, same.store] at stored
  exact highest turn (views.hasSnapshot_iff.mpr stored)

theorem AllKept.mono {last' : String → Option (List τ × τ)}
    (fewer : ∀ cid state, last' cid = some state →
      last cid = some state) : AllKept cfg s last' := by
  obtain ⟨v, views, registered, states⟩ := kept
  exact ⟨v, views, registered, fun cid state isLast =>
    states cid state (fewer cid state isLast)⟩

theorem AllKept.archive (expired : last cid = none) :
    AllKept cfg (archive cfg cid s).2 last := by
  obtain ⟨v, views, registered, states⟩ := kept
  obtain ⟨v', views', rfl | rfl⟩ := views.archive_effect cid
  · exact ⟨v', views', registered, states⟩
  refine ⟨_, views', ?_, ?_⟩
  · intro other isHeld
    have inTracker := registered other isHeld
    rw [TierView.archive_tier]
    split
    · simp
    · exact inTracker
  · intro other state isLast
    have different : other ≠ cid := by
      rintro rfl
      cases expired.symm.trans isLast
    exact (states other state isLast).sameAt (TierView.sameAt_archive different)

end

/-! The two loops of a cleanup cycle. -/

theorem AllKept.demoteEach (kept : AllKept cfg s last) (now : Nat) (conversationIds : List String)
    (demotable : ∀ cid ∈ conversationIds, Demotable cfg s cid) :
    AllKept cfg (demoteEach cfg now conversationIds s).2 last := by
  have ready : AllKept cfg (Tier.demoteEach cfg now conversationIds s).2 last ∧
      ∀ cid ∈ conversationIds,
        Demotable cfg (Tier.demoteEach cfg now conversationIds s).2 cid := by
    apply demoteEach_preserves (P := fun s => AllKept cfg s last ∧
      ∀ cid ∈ conversationIds, Demotable cfg s cid)
    · intro cid member s both
      exact ⟨both.1.demoteToColdTier (both.2 cid member) now,
        fun other isOther => both.1.demotable (both.2 other isOther) cid now⟩
    · exact ⟨kept, demotable⟩
  exact ready.1

theorem AllKept.archiveEach (kept : AllKept cfg s last) (conversationIds : List String)
    (expired : ∀ cid ∈ conversationIds, last cid = none) :
    AllKept cfg (archiveEach cfg conversationIds s).2 last := by
  apply archiveEach_preserves (P := fun s => AllKept cfg s last)
  · intro cid member s kept
    exact kept.archive (expired cid member)
  · exact kept

theorem AllKept.run (s : Saves τ) (event : Nat × TierCall τ) (kept : AllKept cfg s.tiers s.last)
    (keeps : KeepsSaved cfg s event) :
    AllKept cfg (event.2.run cfg event.1 s.tiers) (s.lastAfter cfg event.1 event.2) := by
  obtain ⟨now, call⟩ := event
  cases call with
  | saveToWarm cid entry policy =>
    by_cases valid : (validateStateTensors entry.convStates entry.temporalStates none
        false).isValid = true
    · obtain ⟨room, agrees⟩ := keeps valid
      obtain ⟨saved, kept'⟩ := kept.saveToWarmTier valid room agrees cid policy now
      simp only [Saves.lastAfter, saved]
      exact kept'
    · obtain ⟨answer, refused, notSaved⟩ := Views.saveToWarmTier_of_invalid
        (by simpa using valid) cfg cid policy now s.tiers
      simp only [TierCall.run, Saves.lastAfter, refused]
      exact kept
  | restoreFromWarm cid =>
    obtain ⟨v, views, rest⟩ := kept
    exact ⟨v, views.restoreFromWarmTier cid now, rest⟩
  | restoreFromCold cid turnNumber =>
    obtain ⟨v, views, rest⟩ := kept
    exact ⟨v, views.restoreFromColdTier_effect cid turnNumber now, rest⟩
  | restore cid turnNumber =>
    obtain ⟨v, views, registered, states⟩ := kept
    obtain ⟨v', views', rfl | ⟨snapshot, absent, selected, -, rfl⟩⟩ :=
      views.restoreConversation_effect keeps.1
    · exact ⟨v', views', registered, states⟩
    · exact AllKept.promote views registered states keeps absent selected views'
  | loadReference current reference =>
    obtain ⟨v, views, registered, states⟩ := kept
    obtain ⟨v', views', rfl | ⟨snapshot, absent, selected, -, rfl⟩⟩ :=
      views.loadCrossSessionReference_effect current keeps.1
    · exact ⟨v', views', registered, states⟩
    · exact AllKept.promote views registered states keeps absent selected views'
  | demote cid => exact kept.demoteToColdTier keeps now
  | cleanup =>
    -- what is about to be archived has expired in the history
    have expiring : AllKept cfg s.tiers (s.lastAfter cfg now .cleanup) := by
      apply kept.mono
      intro cid state isLast
      simp only [Saves.lastAfter] at isLast
      split at isLast
      · cases isLast
      · exact isLast
    exact (expiring.demoteEach now _ keeps).archiveEach _ (fun _ member => if_pos member)

end Calls

/-! ### Runs -/

section Runs

variable [Torch τ]

end Runs

end Engram.Tier
