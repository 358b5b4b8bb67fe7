import Engram.Lib.Transition
import Engram.Tier.Effects

/-!
# What a restore answers

A state in host memory answers every restore of its conversation: also one for another
turn, and also one for a reference that `enable_cross_session_refs` forbids.
-/

namespace Engram.Tier

open Lib Lib.Transition Snapshot

variable {τ : Type} [Torch τ]

/-! ### Reachable stores -/

section Reachable

variable {cfg : TierConfig} {s : TierState τ} {store : SnapshotKey → Option (StoredSnapshot τ)}

theorem saveToWarmTier_disk (cfg : TierConfig) (conversationId : String) (entry : HostPoolEntry τ)
    (policy : ValidationPolicy) (now : Nat) (s : TierState τ) :
    (saveToWarmTier cfg conversationId entry policy now s).2.disk = s.disk := by
  unfold saveToWarmTier
  simp only
  split
  · cases policy with
    | raise => rfl
    | logAndContinue => rfl
  · split
    · rfl
    · rfl

def Viewed (cfg : TierConfig) (s : TierState τ) : Prop :=
  ∃ v, Views cfg s v

theorem viewed_of_onDisk (onDisk : OnDisk cfg.baseDir s.disk store) : Viewed cfg s :=
  ⟨⟨_, _, store⟩, fun _ => rfl, fun _ => rfl, onDisk⟩

section

variable (viewed : Viewed cfg s)

include viewed

variable (conversationId : String)

theorem Viewed.saveToWarmTier (entry : HostPoolEntry τ) (policy : ValidationPolicy) (now : Nat) :
    Viewed cfg (saveToWarmTier cfg conversationId entry policy now s).2 := by
  obtain ⟨v, views⟩ := viewed
  apply viewed_of_onDisk
  rw [saveToWarmTier_disk]
  exact views.onDisk

theorem Viewed.restoreConversation (turnNumber : Option Int) (now : Nat) :
    Viewed cfg (restoreConversation cfg conversationId turnNumber now s).2 := by
  obtain ⟨v, views⟩ := viewed
  cases isHeld : v.held conversationId with
  | some entry =>
    obtain ⟨s', restored, views'⟩ := views.restoreConversation_of_held isHeld turnNumber now
    rw [restored]
    exact ⟨v, views'⟩
  | none =>
    rw [views.restoreConversation_of_not_held isHeld]
    split
    · rcases views.restoreAndPromote conversationId turnNumber now with
        ⟨snapshot, s₁, -, -, views₁, -, answered⟩ | ⟨answer, s', answered, views', -⟩
      · rw [answered]
        exact Viewed.saveToWarmTier ⟨v, views₁⟩ conversationId _ _ now
      · rw [answered]
        exact ⟨v, views'⟩
    · exact ⟨v, views⟩

theorem Viewed.preload (now : Nat) :
    Viewed cfg (preload cfg conversationId now s).2 := by
  obtain ⟨v, views⟩ := viewed
  have opens := getLatestSnapshot_opened cfg.baseDir conversationId s.disk
  unfold Tier.preload
  split
  · next latest =>
    rw [latest] at opens
    exact ⟨v, views.opened opens⟩
  · next latest =>
    rw [latest] at opens
    exact ⟨v, views.opened opens⟩
  · next turn metadata disk latest =>
    rw [latest] at opens
    have restored := Viewed.restoreConversation ⟨v, views.opened opens⟩ conversationId
      (some turn) now
    split
    · next answered =>
      rw [answered] at restored
      exact restored
    · next answered =>
      rw [answered] at restored
      exact restored

theorem Viewed.preloadEach (conversationIds : List String) (now : Nat) :
    Viewed cfg (preloadEach cfg now conversationIds s).2 := by
  induction conversationIds generalizing s with
  | nil => exact viewed
  | cons conversationId rest ih => exact ih (viewed.preload conversationId now)

theorem Viewed.tierCall (now : Nat) (call : TierCall τ) :
    Viewed cfg (call.run cfg now s) := by
  cases call with
  | saveToWarm conversationId entry policy =>
    exact viewed.saveToWarmTier conversationId entry policy now
  | restoreFromWarm conversationId =>
    obtain ⟨v, views⟩ := viewed
    exact ⟨v, views.restoreFromWarmTier conversationId now⟩
  | restoreFromCold conversationId turnNumber =>
    obtain ⟨v, views⟩ := viewed
    exact ⟨v, views.restoreFromColdTier_effect conversationId turnNumber now⟩
  | restore conversationId turnNumber =>
    exact viewed.restoreConversation conversationId turnNumber now
  | loadReference current reference =>
    obtain ⟨v, views⟩ := viewed
    rcases views.loadCrossSessionReference current reference now with
      ⟨entry, s', -, -, loaded, views'⟩ | restored
    · simp only [TierCall.run, loaded]
      exact ⟨v, views'⟩
    · simp only [TierCall.run, restored]
      exact Viewed.restoreConversation ⟨v, views⟩ reference none now
  | demote conversationId =>
    obtain ⟨v, views⟩ := viewed
    obtain ⟨v', views', -⟩ := views.demoteToColdTier_effect conversationId now
    exact ⟨v', views'⟩
  | cleanup =>
    apply archiveEach_preserves (P := Viewed cfg)
    · rintro conversationId - s ⟨v, views⟩
      obtain ⟨v', views', -⟩ := views.archive_effect conversationId
      exact ⟨v', views'⟩
    · apply demoteEach_preserves (P := Viewed cfg)
      · rintro conversationId - s ⟨v, views⟩
        obtain ⟨v', views', -⟩ := views.demoteToColdTier_effect conversationId now
        exact ⟨v', views'⟩
      · exact viewed

theorem Viewed.systemCall (event : Nat × SystemCall τ) :
    Viewed cfg (event.2.run cfg event.1 s) := by
  obtain ⟨now, call⟩ := event
  cases call with
  | manager call => exact viewed.tierCall now call
  | saveToCold conversationId snapshot =>
    obtain ⟨v, views⟩ := viewed
    obtain ⟨v', views', -⟩ := views.saveToColdTier_effect conversationId snapshot
    exact ⟨v', views'⟩
  | startup => exact viewed.preloadEach _ now
  | transition conversationId targetTier =>
    obtain ⟨v, views⟩ := viewed
    have disk : (tierTransition conversationId targetTier s).2.disk = s.disk := by
      unfold tierTransition
      split
      · rfl
      · split
        · rfl
        · split
          · rfl
          · rfl
    apply viewed_of_onDisk
    rw [SystemCall.run, disk]
    exact views.onDisk

end

theorem viewed_of_run {disk : FileSystem (Content τ)} (onDisk : OnDisk cfg.baseDir disk store)
    {calls : List (Nat × SystemCall τ)}
    (completed : Transition.run (systemStep cfg) { disk } calls = .ok s) : Viewed cfg s := by
  refine run_preserves ?_ calls { disk } s (viewed_of_onDisk onDisk) completed
  intro s call s' viewed stepped
  cases stepped
  exact viewed.systemCall call

end Reachable

/-! ### A requested turn -/

section RequestedTurn

variable (cfg : TierConfig) (s : TierState τ) (conversationId : String) (turn : Int)

def SavedFor (restored : Restored τ) : Prop :=
  (∃ entry, s.hostPool.pool.lookup conversationId = some entry ∧ entry.restored = restored ∧
    restored.metadata.turnNumber = some turn) ∨
  ∃ snapshot, (loadSnapshot cfg.baseDir conversationId (some turn) none s.disk).1 = .ok snapshot ∧
    (promoted snapshot).restored = restored

/-- A restore of the turn returns its state or nothing, and its state if it is on disk. -/
structure HonoursTurn (now : Nat) : Prop where
  saved : ∀ restored,
    (restoreConversation cfg conversationId (some turn) now s).1 = .ok (some restored) →
      SavedFor cfg s conversationId turn restored
  found : ∀ snapshot,
    (loadSnapshot cfg.baseDir conversationId (some turn) none s.disk).1 = .ok snapshot →
      ∃ restored, (restoreConversation cfg conversationId (some turn) now s).1 = .ok (some restored)

/-- Nothing in host memory, and no model name, stands between the request and the turn. -/
def TurnServed : Prop :=
  match s.hostPool.pool.lookup conversationId with
  | some entry =>
    if cfg.modelMismatch entry.modelName = true then
      ¬ HasSnapshot cfg.baseDir s.disk ⟨conversationId, .turn turn⟩
    else entry.restored.metadata.turnNumber = some turn
  | none => ∀ snapshot,
    (loadSnapshot cfg.baseDir conversationId (some turn) none s.disk).1 = .ok snapshot →
      cfg.modelMismatch (some snapshot.metadata.modelName) = false

variable {cfg s conversationId turn}

theorem Views.load_turn_iff {v : TierView τ} (views : Views cfg s v) {snapshot : StoredSnapshot τ} :
    (loadSnapshot cfg.baseDir conversationId (some turn) none s.disk).1 = .ok snapshot ↔
      v.store ⟨conversationId, .turn turn⟩ = some snapshot :=
  views.onDisk.load_eq_ok_iff rfl

theorem SavedFor.turnNumber (viewed : Viewed cfg s) {restored : Restored τ}
    (savedFor : SavedFor cfg s conversationId turn restored) :
    restored.metadata.turnNumber = some turn := by
  obtain ⟨v, views⟩ := viewed
  rcases savedFor with ⟨entry, -, -, number⟩ | ⟨snapshot, loaded, rfl⟩
  · exact number
  · exact congrArg some (views.onDisk.turnNumber_eq (views.load_turn_iff.mp loaded))

theorem honoursTurn_of_held (viewed : Viewed cfg s) {entry : HostPoolEntry τ}
    (held : s.hostPool.pool.lookup conversationId = some entry) (now : Nat) :
    HonoursTurn cfg s conversationId turn now ↔ TurnServed cfg s conversationId turn := by
  have answer : (restoreConversation cfg conversationId (some turn) now s).1 =
      if cfg.modelMismatch entry.modelName = true then .error (cfg.mismatchError entry.modelName)
      else .ok (some entry.restored) := by
    rw [restoreConversation_of_lookup cfg held]
    exact restoreFromWarmTier_of_lookup cfg held now
  obtain ⟨v, views⟩ := viewed
  rw [TurnServed, held]
  simp only
  split
  · next differs =>
    -- the held state is refused, so nothing may be on disk for the turn
    rw [if_pos differs] at answer
    rw [views.hasSnapshot_iff]
    constructor
    · intro honours stored
      obtain ⟨snapshot, isStored⟩ := Option.isSome_iff_exists.mp stored
      obtain ⟨restored, returned⟩ := honours.found snapshot (views.load_turn_iff.mpr isStored)
      cases answer.symm.trans returned
    intro nothing
    constructor
    · intro restored returned
      cases answer.symm.trans returned
    · intro snapshot loaded
      rw [views.load_turn_iff.mp loaded] at nothing
      exact absurd rfl nothing
  · next agrees =>
    rw [if_neg agrees] at answer
    constructor
    · intro honours
      exact (honours.saved _ answer).turnNumber ⟨v, views⟩
    intro number
    constructor
    · intro restored returned
      cases answer.symm.trans returned
      exact .inl ⟨entry, held, rfl, number⟩
    · intro snapshot loaded
      exact ⟨_, answer⟩

/-- Without one the turn on disk is returned unless it is of another model. -/
theorem honoursTurn_of_not_held (viewed : Viewed cfg s)
    (absent : s.hostPool.pool.lookup conversationId = none) (now : Nat) :
    HonoursTurn cfg s conversationId turn now ↔ TurnServed cfg s conversationId turn := by
  obtain ⟨v, views⟩ := viewed
  have asked := views.restoreConversation_of_not_held ((views.held _).symm.trans absent)
    (some turn) now
  rw [if_pos (.inr (by simp))] at asked
  rw [TurnServed, absent]
  -- what the disk has of the turn is returned unless the model check refuses it
  rcases views.restoreAndPromote conversationId (some turn) now with
    ⟨snapshot, s₁, selected, agrees, -, -, answered⟩ | ⟨answer, s', answered, -, nothing, differs⟩
  · rw [answered] at asked
    have loads := views.load_turn_iff.mpr selected
    constructor
    · intro _ other loaded
      cases loads.symm.trans loaded
      exact agrees
    intro _
    constructor
    · intro restored returned
      rw [asked] at returned
      cases returned
      exact .inr ⟨snapshot, loads, rfl⟩
    · intro other _
      exact ⟨_, congrArg Prod.fst asked⟩
  · rw [answered] at asked
    constructor
    · intro honours snapshot loaded
      obtain ⟨restored, returned⟩ := honours.found snapshot loaded
      rw [asked] at returned
      exact absurd returned (nothing restored)
    intro served
    constructor
    · intro restored returned
      rw [asked] at returned
      exact absurd returned (nothing restored)
    · intro snapshot loaded
      have mismatch := differs snapshot (views.load_turn_iff.mp loaded)
      rw [served snapshot loaded] at mismatch
      cases mismatch

/-- In every reachable state a requested turn is honoured exactly if the pool holds that turn
    or nothing of the conversation, up to states that the model check refuses. -/
theorem requested_turn_honoured_iff {disk : FileSystem (Content τ)}
    {store : SnapshotKey → Option (StoredSnapshot τ)} (onDisk : OnDisk cfg.baseDir disk store)
    {calls : List (Nat × SystemCall τ)}
    (completed : Transition.run (systemStep cfg) { disk } calls = .ok s)
    (conversationId : String) (turn : Int) (now : Nat) :
    HonoursTurn cfg s conversationId turn now ↔ TurnServed cfg s conversationId turn := by
  have viewed := viewed_of_run onDisk completed
  cases held : s.hostPool.pool.lookup conversationId with
  | some entry => exact honoursTurn_of_held viewed held now
  | none => exact honoursTurn_of_not_held viewed held now

/-- Turn 1 is demoted, turn 2 is saved: a request for turn 2 is honoured. -/
theorem requested_turn_honoured_when_held :
    let cfg : TierConfig := { baseDir := ["store"], modelPath := some "m" }
    let save (value : Int) : Nat × SystemCall IntTensor :=
      (0, .manager (.saveToWarm "a" (sampleEntry value (some value)) .raise))
    ∃ s, Transition.run (systemStep cfg) {} [save 1, (0, .manager (.demote "a")), save 2] = .ok s ∧
      HonoursTurn cfg s "a" 2 0 := by
  intro cfg save
  obtain ⟨s, completed, isHeld⟩ : ∃ s, Transition.run (systemStep cfg) {}
      [save 1, (0, .manager (.demote "a")), save 2] = .ok s ∧
        s.hostPool.pool.lookup "a" = some (sampleEntry 2 (some 2)) := by decide +kernel
  refine ⟨s, completed, ?_⟩
  apply (requested_turn_honoured_iff .empty completed "a" 2 0).mpr
  rw [TurnServed, isHeld]
  exact (if_neg (by decide)).mpr rfl

/-- A request for turn 1 is answered with turn 2, although turn 1 is on disk. -/
theorem requested_turn_not_honoured :
    let cfg : TierConfig := { baseDir := ["store"], modelPath := some "m" }
    let save (value : Int) : Nat × SystemCall IntTensor :=
      (0, .manager (.saveToWarm "a" (sampleEntry value (some value)) .raise))
    ∃ s, Transition.run (systemStep cfg) {} [save 1, (0, .manager (.demote "a")), save 2] = .ok s ∧
      (loadSnapshot cfg.baseDir "a" (some 1) none s.disk).1.toOption.isSome = true ∧
      (restoreConversation cfg "a" (some 1) 0 s).1.toOption.join =
        some (sampleEntry 2 (some 2)).restored ∧
      ¬ HonoursTurn cfg s "a" 1 0 := by
  intro cfg save
  obtain ⟨s, completed, loads, returned⟩ : ∃ s, Transition.run (systemStep cfg) {}
      [save 1, (0, .manager (.demote "a")), save 2] = .ok s ∧
        (loadSnapshot cfg.baseDir "a" (some 1) none s.disk).1.toOption.isSome = true ∧
        (restoreConversation cfg "a" (some 1) 0 s).1.toOption.join =
          some (sampleEntry 2 (some 2)).restored := by decide +kernel
  refine ⟨s, completed, loads, returned, ?_⟩
  intro honours
  cases answer : (restoreConversation cfg "a" (some 1) 0 s).1 with
  | error error =>
    rw [answer] at returned
    cases returned
  | ok restored =>
    rw [answer] at returned
    cases (show restored = some (sampleEntry 2 (some 2)).restored from returned)
    have number := (honours.saved _ answer).turnNumber (viewed_of_run .empty completed)
    cases number

end RequestedTurn

/-! ### References to other conversations -/

section CrossSession

/-- Two states that differ at most in what is saved for one conversation: the pools agree
    without its entry, the trackers agree, and the disks agree outside its directory. -/
structure AgreeExcept (cfg : TierConfig) (conversationId : String) (s s' : TierState τ) : Prop where
  pool : (s'.hostPool.removeState conversationId).2 = (s.hostPool.removeState conversationId).2
  tracker : s'.tracker = s.tracker
  files : ∀ path, staysUnder path (conversationDir cfg.baseDir conversationId) = false →
    s'.disk.read? path = s.disk.read? path
  dirs : ∀ path, staysUnder path (conversationDir cfg.baseDir conversationId) = false →
    (path ∈ s'.disk.dirs ↔ path ∈ s.disk.dirs)

/-- All states that differ from `s` only in what is saved for `reference` give one answer. -/
def RevealsNothing (cfg : TierConfig) (current reference : String) (now : Nat)
    (s : TierState τ) : Prop :=
  ∀ s₁ s₂, AgreeExcept cfg reference s s₁ → AgreeExcept cfg reference s s₂ →
    (loadCrossSessionReference cfg current reference now s₁).1 =
      (loadCrossSessionReference cfg current reference now s₂).1

def TierState.withSaved (s : TierState τ) (conversationId : String) (entry : HostPoolEntry τ) :
    TierState τ :=
  let host := (s.hostPool.removeState conversationId).2
  { s with hostPool := { pool := host.pool.insert conversationId entry
                         currentMemoryBytes := host.currentMemoryBytes + entry.memoryBytes } }

variable {cfg : TierConfig} (s : TierState τ) (conversationId : String) (entry : HostPoolEntry τ)

theorem withSaved_lookup :
    (s.withSaved conversationId entry).hostPool.pool.lookup conversationId = some entry := by
  rw [TierState.withSaved]
  rw [OrderedDict.lookup_insert, if_pos rfl]

theorem agreeExcept_withSaved :
    AgreeExcept cfg conversationId s (s.withSaved conversationId entry) where
  pool := by
    have absent : conversationId ∉ (s.hostPool.removeState conversationId).2.pool := by
      rw [OrderedDict.not_mem_iff_lookup, MambaHostPool.removeState_lookup, if_pos rfl]
    rw [MambaHostPool.removeState, withSaved_lookup]
    simp only [TierState.withSaved]
    rw [OrderedDict.erase_insert_of_not_mem absent, Int.add_sub_cancel]
  tracker := rfl
  files := fun _ _ => rfl
  dirs := fun _ _ => Iff.rfl

variable {s conversationId entry}

theorem loadCrossSessionReference_of_lookup (disabled : cfg.limits.enableCrossSessionRefs = false)
    (found : s.hostPool.pool.lookup conversationId = some entry) (current : String) (now : Nat) :
    (loadCrossSessionReference cfg current conversationId now s).1 =
      if cfg.modelMismatch entry.modelName = true then .error (cfg.mismatchError entry.modelName)
      else .ok (some entry.restored) := by
  rw [loadCrossSessionReference, MambaHostPool.getStateForReference, if_pos disabled]
  simp only
  rw [restoreConversation_of_lookup cfg found]
  exact restoreFromWarmTier_of_lookup cfg found now

/-- With references disabled, whatever else is stored, the answer depends on what is saved
    for the other conversation. -/
theorem disabled_reference_reveals (disabled : cfg.limits.enableCrossSessionRefs = false)
    (current reference : String) (now : Nat) (s : TierState τ) (tensor : τ) :
    ¬ RevealsNothing cfg current reference now s := by
  intro reveals
  -- two saves of the same tensors that name no model and differ in the turn
  let saved (turn : Int) : HostPoolEntry τ := ⟨[tensor], tensor, some { turnNumber := some turn }⟩
  have returned : ∀ turn, (loadCrossSessionReference cfg current reference now
      (s.withSaved reference (saved turn))).1 = .ok (some (saved turn).restored) := by
    intro turn
    rw [loadCrossSessionReference_of_lookup disabled (withSaved_lookup s reference (saved turn))]
    have agrees : cfg.modelMismatch (saved turn).modelName = false := by
      simp [saved, HostPoolEntry.modelName, HostPoolEntry.restored, TierConfig.modelMismatch,
        Key.truthy]
    rw [agrees]
    rfl
  have same := reveals _ _ (agreeExcept_withSaved s reference (saved 1))
    (agreeExcept_withSaved s reference (saved 2))
  rw [returned, returned] at same
  simp [saved, HostPoolEntry.restored] at same

theorem disabled_reference_reveals_to_other :
    let cfg : TierConfig := { baseDir := ["store"], limits := { enableCrossSessionRefs := false } }
    "a" ≠ "b" ∧ ¬ RevealsNothing (τ := IntTensor) cfg "a" "b" 0 {} :=
  ⟨by decide, disabled_reference_reveals rfl "a" "b" 0 {} ⟨.float32, [1], [1]⟩⟩

/-- Two runs that differ in the tensors that `b` saves: `a` gets them. -/
theorem disabled_reference_returns_tensors :
    let cfg : TierConfig := { baseDir := ["store"], limits := { enableCrossSessionRefs := false } }
    let saved (value : Int) : TierState IntTensor :=
      (saveToWarmTier cfg "b" (sampleEntry value (some 1)) .raise 0 {}).2
    AgreeExcept cfg "b" (saved 1) (saved 2) ∧
      (∀ value ∈ [1, 2], (loadCrossSessionReference cfg "a" "b" 0 (saved value)).1.toOption.join =
        some (sampleEntry value (some 1)).restored) ∧
      ¬ ∀ s s' : TierState IntTensor, AgreeExcept cfg "b" s s' →
        (loadCrossSessionReference cfg "a" "b" 0 s).1 =
          (loadCrossSessionReference cfg "a" "b" 0 s').1 := by
  intro cfg saved
  have agree : AgreeExcept cfg "b" (saved 1) (saved 2) :=
    ⟨by decide, by decide, fun _ _ => rfl, fun _ _ => Iff.rfl⟩
  have returned : ∀ value ∈ [1, 2],
      (loadCrossSessionReference cfg "a" "b" 0 (saved value)).1.toOption.join =
        some (sampleEntry value (some 1)).restored := by
    decide
  refine ⟨agree, returned, ?_⟩
  intro respected
  have same := congrArg (fun answer => answer.toOption.join) (respected _ _ agree)
  simp only [returned 1 (by decide), returned 2 (by decide)] at same
  exact absurd same (by decide)

end CrossSession

end Engram.Tier
