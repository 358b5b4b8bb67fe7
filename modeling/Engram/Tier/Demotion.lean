import Engram.Lib.Transition
import Engram.Snapshot.Faults
import Engram.Tier.Effects

/-!
# What a demotion keeps

`demote_to_cold_tier` builds the metadata of the snapshot from eight entries of the dictionary in
the pool and leaves the other fields at their defaults. The tensors and the other snapshots are
kept; the dictionary is kept only if it has nothing else (`demotion_lossless_iff`).
-/

namespace Engram.Tier

open Lib Snapshot Function

variable {τ : Type}

/-! ### Metadata -/

/-- Everything in the dictionary but the timestamp and the pool indices is in the record. The
    turn of a dictionary without one is 0; other missing entries may have any value. -/
structure SameMetadata (before : MetadataDict) (after : MambaSnapshotMetadata) : Prop where
  conversationId : ∀ id, before.conversationId = some id → after.conversationId = id
  turnNumber : after.turnNumber = before.turnNumber.getD 0
  tokenCount : ∀ count, before.tokenCount = some count → after.tokenCount = count
  modelName : ∀ name, before.modelName = some name → after.modelName = name
  layerConfig : ∀ config, before.layerConfig = some config → after.layerConfig = config
  activeToolContext : after.activeToolContext = before.activeToolContext
  branchName : after.branchName = before.branchName
  parentSnapshot : after.parentSnapshot = before.parentSnapshot
  fillIds : after.fillIds = before.fillIds
  extra : before.extra = []

structure Plain (conversationId : String) (metadata : MetadataDict) : Prop where
  conversationId : ∀ id, metadata.conversationId = some id → id = conversationId
  activeToolContext : metadata.activeToolContext = none
  branchName : metadata.branchName = none
  parentSnapshot : metadata.parentSnapshot = none
  fillIds : metadata.fillIds = none
  extra : metadata.extra = []

theorem sameMetadata_demoted_iff {conversationId : String} {now : Nat} {metadata : MetadataDict} :
    SameMetadata metadata (demotedMetadata conversationId now metadata) ↔
      Plain conversationId metadata := by
  constructor
  · intro same
    exact ⟨fun id given => (same.conversationId id given).symm, same.activeToolContext.symm,
      same.branchName.symm, same.parentSnapshot.symm, same.fillIds.symm, same.extra⟩
  intro plain
  -- the entries that are read come back as they are
  have read : ∀ {α : Type} {entry : Option α} (default : α), ∀ value, entry = some value →
      entry.getD default = value := by
    rintro α entry default value rfl
    rfl
  exact ⟨fun id given => (plain.conversationId id given).symm, rfl, read _, read _, read _,
    plain.activeToolContext.symm, plain.branchName.symm, plain.parentSnapshot.symm,
    plain.fillIds.symm, plain.extra⟩

/-! ### The property -/

variable [Torch τ]

/-- The turn under which a demotion stores the entry. -/
def HostPoolEntry.turn (entry : HostPoolEntry τ) : Int :=
  entry.restored.metadata.turnNumber.getD 0

section Property

variable (cfg : TierConfig) (s : TierState τ) (conversationId : String) (entry : HostPoolEntry τ)
  (now : Nat) (fault : Option SaveFault)

/-- A demotion that returns `True` leaves a snapshot with the tensors and the metadata of the
    entry, which a restore with `selection` finds, and every other snapshot as it was; one
    that returns `False` leaves the entry in the pool. -/
structure Lossless (selection : Option Int) : Prop where
  restores : (demoteToColdTier cfg conversationId now s fault).1 = true → ∀ later,
    ∃ snapshot, (restoreFromColdTier cfg conversationId selection later
        (demoteToColdTier cfg conversationId now s fault).2).1 = .ok (some snapshot) ∧
      snapshot.convStates = entry.convStates ∧ snapshot.temporalStates = entry.temporalStates ∧
      SameMetadata entry.restored.metadata snapshot.metadata
  others : (demoteToColdTier cfg conversationId now s fault).1 = true →
    ∀ other turnNumber branchName, keyOf other turnNumber branchName ≠
        keyOf conversationId (some entry.turn) entry.restored.metadata.branchName →
      (loadSnapshot cfg.baseDir other turnNumber branchName
          (demoteToColdTier cfg conversationId now s fault).2.disk).1.toOption =
        (loadSnapshot cfg.baseDir other turnNumber branchName s.disk).1.toOption
  kept : (demoteToColdTier cfg conversationId now s fault).1 = false →
    (demoteToColdTier cfg conversationId now s fault).2.hostPool.pool.lookup conversationId =
      some entry

/-- The save goes through: the disk does not fail, the tensors pass validation, and id and
    turn are accepted. -/
def Demotes : Prop :=
  fault = none ∧ (demoted conversationId now entry.restored).Storable ∧
    (SnapshotKey.mk conversationId (.turn entry.turn)).Accepted

/-- A cold restore may return the entry, and nothing of its dictionary is dropped. -/
def Recorded : Prop :=
  Plain conversationId entry.restored.metadata ∧
    cfg.modelMismatch (some (entry.modelName.getD "unknown")) = false

end Property

/-! ### When a demotion succeeds -/

section Success

variable {cfg : TierConfig} {s : TierState τ} {conversationId : String} {entry : HostPoolEntry τ}
  {fault : Option SaveFault}

theorem demoteToColdTier_of_lookup (cfg : TierConfig)
    (found : s.hostPool.pool.lookup conversationId = some entry) (now : Nat)
    (fault : Option SaveFault) :
    ∃ saved, saved.hostPool.pool.lookup conversationId = some entry ∧
      demoteToColdTier cfg conversationId now s fault =
        if (saveSnapshot cfg.baseDir fault entry.convStates entry.temporalStates
            (demotedMetadata conversationId now entry.restored.metadata) s.disk).1.isOk = true then
          (true, { saved with hostPool := (saved.hostPool.removeState conversationId).2 })
        else (false, saved) := by
  let touched : TierState τ :=
    { s with hostPool := { s.hostPool with pool := s.hostPool.pool.moveToEnd conversationId } }
  have answer : (saveToColdTier cfg conversationId (demoted conversationId now entry.restored)
      touched fault).1 = (saveSnapshot cfg.baseDir fault entry.convStates entry.temporalStates
        (demotedMetadata conversationId now entry.restored.metadata) s.disk).1.isOk ∧
      (saveToColdTier cfg conversationId (demoted conversationId now entry.restored)
        touched fault).2.hostPool = touched.hostPool := by
    rw [saveToColdTier]
    split
    · next refused => exact ⟨congrArg (·.1.isOk) refused.symm, rfl⟩
    · next saved => exact ⟨congrArg (·.1.isOk) saved.symm, rfl⟩
  refine ⟨(saveToColdTier cfg conversationId (demoted conversationId now entry.restored) touched
    fault).2, ?_, ?_⟩
  · rw [answer.2, OrderedDict.lookup_moveToEnd]
    exact found
  rw [demoteToColdTier, MambaHostPool.getState_of_some found, ← answer.1]
  simp only
  split
  · next refused => rw [refused, if_neg Bool.false_ne_true]
  · next saved => rw [saved, if_pos rfl]

theorem demoteToColdTier_eq_true_iff (found : s.hostPool.pool.lookup conversationId = some entry)
    {now : Nat} :
    (demoteToColdTier cfg conversationId now s fault).1 = true ↔
      Demotes conversationId entry now fault := by
  obtain ⟨saved, -, demotes⟩ := demoteToColdTier_of_lookup cfg found now fault
  have succeeds := saveSnapshot_isOk_iff cfg.baseDir fault
    (demoted conversationId now entry.restored) s.disk
  have key : (demoted conversationId now entry.restored).key =
      some ⟨conversationId, .turn entry.turn⟩ := rfl
  simp only [key, Option.some.injEq, exists_eq_left'] at succeeds
  rw [Demotes, ← succeeds, demotes]
  split
  · next ok => exact iff_of_true rfl ok
  · next failed => exact iff_of_false (by simp) failed

theorem lookup_of_demoteToColdTier_false
    (found : s.hostPool.pool.lookup conversationId = some entry) {now : Nat}
    (refused : (demoteToColdTier cfg conversationId now s fault).1 = false) :
    (demoteToColdTier cfg conversationId now s fault).2.hostPool.pool.lookup conversationId =
      some entry := by
  obtain ⟨saved, kept, demotes⟩ := demoteToColdTier_of_lookup cfg found now fault
  rw [demotes] at refused ⊢
  split at refused
  · cases refused
  · next failed =>
    rw [if_neg failed]
    exact kept

end Success

/-! ### What a cold restore then finds -/

section Restored

variable {cfg : TierConfig} {s : TierState τ} {v : TierView τ} {conversationId : String}
  {entry : HostPoolEntry τ} {now : Nat} {fault : Option SaveFault}
  {snapshot other : StoredSnapshot τ}

omit [Torch τ] in
theorem selected_demote_turn_iff :
    Selected (v.demote conversationId snapshot).store conversationId
      (some snapshot.metadata.turnNumber) other ↔ other = snapshot := by
  rw [Selected, TierView.demote_store, update_self, Option.some.injEq]
  exact eq_comm

theorem selected_demote_latest_iff
    (onDisk : OnDisk cfg.baseDir s.disk (v.demote conversationId snapshot).store)
    (same : other.metadata.turnNumber = snapshot.metadata.turnNumber) :
    Selected (v.demote conversationId snapshot).store conversationId none other ↔
      other = snapshot ∧ ∀ turn, (v.store ⟨conversationId, .turn turn⟩).isSome = true →
        turn ≤ snapshot.metadata.turnNumber := by
  constructor
  · rintro ⟨turn, stored, highest⟩
    obtain rfl := (onDisk.turnNumber_eq stored).symm.trans same
    rw [TierView.demote_store, update_self] at stored
    cases stored
    refine ⟨rfl, ?_⟩
    intro turn isStored
    apply highest turn
    rw [TierView.demote_store, update_apply]
    split
    · rfl
    · exact isStored
  · rintro ⟨rfl, highest⟩
    refine ⟨other.metadata.turnNumber, ?_, ?_⟩
    · rw [TierView.demote_store, update_self]
    intro turn isStored
    rw [TierView.demote_store, update_apply] at isStored
    split at isStored
    · next own =>
      cases own
      exact Int.le_refl _
    · exact highest turn isStored

theorem Views.demoted_of_demotes (views : Views cfg s v)
    (found : s.hostPool.pool.lookup conversationId = some entry)
    (demotes : Demotes conversationId entry now fault) :
    ∃ s', demoteToColdTier cfg conversationId now s fault = (true, s') ∧
      Views cfg s' (v.demote conversationId (demoted conversationId now entry.restored)) := by
  have succeeds : (demoteToColdTier cfg conversationId now s fault).1 = true :=
    (demoteToColdTier_eq_true_iff found).mpr demotes
  obtain ⟨rfl, -, -⟩ := demotes
  rcases views.demoteToColdTier_of_held ((views.held _).symm.trans found) now with
    ⟨s', refused, -⟩ | ⟨s', done, -, -, views'⟩
  · rw [refused] at succeeds
    cases succeeds
  · exact ⟨s', done, views'⟩

theorem lossless_iff (views : Views cfg s v)
    (found : s.hostPool.pool.lookup conversationId = some entry) {selection : Option Int}
    {selectable : Prop} (selects : ∀ {s'}, Views cfg s' (v.demote conversationId
        (demoted conversationId now entry.restored)) → ∀ other : StoredSnapshot τ,
      other.metadata.turnNumber = entry.turn →
        (Selected (v.demote conversationId (demoted conversationId now entry.restored)).store
          conversationId selection other ↔
            other = demoted conversationId now entry.restored ∧ selectable)) :
    Lossless cfg s conversationId entry now fault selection ↔
      (Demotes conversationId entry now fault → Recorded cfg conversationId entry ∧
        selectable) := by
  constructor
  · intro lossless demotes
    obtain ⟨s', done, views'⟩ := views.demoted_of_demotes found demotes
    obtain ⟨snapshot, restored, -, -, same⟩ := lossless.restores (congrArg Prod.fst done) now
    rw [done] at restored
    obtain ⟨selected, agrees⟩ := views'.restoreFromColdTier_eq_ok_iff.mp restored
    obtain ⟨rfl, selectable⟩ := (selects views' snapshot same.turnNumber).mp selected
    exact ⟨⟨sameMetadata_demoted_iff.mp same, agrees⟩, selectable⟩
  intro condition
  have whenDone : (demoteToColdTier cfg conversationId now s fault).1 = true →
      ∃ s', demoteToColdTier cfg conversationId now s fault = (true, s') ∧
        Views cfg s' (v.demote conversationId (demoted conversationId now entry.restored)) ∧
        Recorded cfg conversationId entry ∧ selectable := by
    intro succeeds
    have demotes := (demoteToColdTier_eq_true_iff found).mp succeeds
    obtain ⟨s', done, views'⟩ := views.demoted_of_demotes found demotes
    exact ⟨s', done, views', condition demotes⟩
  refine ⟨?_, ?_, lookup_of_demoteToColdTier_false found⟩
  · intro succeeds later
    obtain ⟨s', done, views', ⟨plain, agrees⟩, selectable⟩ := whenDone succeeds
    rw [done]
    have selected := (selects views' _ rfl).mpr ⟨rfl, selectable⟩
    exact ⟨_, views'.restoreFromColdTier_eq_ok_iff.mpr ⟨selected, agrees⟩, rfl, rfl,
      sameMetadata_demoted_iff.mpr plain⟩
  intro succeeds other turnNumber branchName different
  obtain ⟨s', done, views', ⟨plain, -⟩, -⟩ := whenDone succeeds
  rw [done, views'.onDisk.load_toOption, views.onDisk.load_toOption]
  -- without a branch name the state is stored under its own turn
  rw [plain.branchName] at different
  cases named : keyOf other turnNumber branchName with
  | none => rfl
  | some key =>
    rw [named] at different
    refine update_of_ne ?_ ..
    rintro rfl
    exact different rfl

/-- A demotion is lossless exactly if it is refused, or the dictionary is plain and its model
    name passes the check of a cold restore; for a restore of the latest turn the demoted
    turn must also be the highest. -/
theorem demotion_lossless_iff {store : SnapshotKey → Option (StoredSnapshot τ)}
    (onDisk : OnDisk cfg.baseDir s.disk store)
    (held : s.hostPool.pool.lookup conversationId = some entry) (now : Nat)
    (fault : Option SaveFault) :
    (Lossless cfg s conversationId entry now fault (some entry.turn) ↔
      (Demotes conversationId entry now fault → Recorded cfg conversationId entry)) ∧
    (Lossless cfg s conversationId entry now fault none ↔
      (Demotes conversationId entry now fault → Recorded cfg conversationId entry ∧
        ∀ turn, HasSnapshot cfg.baseDir s.disk ⟨conversationId, .turn turn⟩ →
          turn ≤ entry.turn)) := by
  have views : Views cfg s ⟨s.hostPool.pool.lookup, s.tracker.getTier, store⟩ :=
    ⟨fun _ => rfl, fun _ => rfl, onDisk⟩
  constructor
  · have atTurn : Lossless cfg s conversationId entry now fault (some entry.turn) ↔
        (Demotes conversationId entry now fault → Recorded cfg conversationId entry ∧ True) := by
      refine lossless_iff views held ?_
      intro s' _ other _
      rw [and_true]
      exact selected_demote_turn_iff
    simpa only [and_true] using atTurn
  · refine lossless_iff views held ?_
    intro s' views' other same
    simp only [views.hasSnapshot_iff]
    exact selected_demote_latest_iff views'.onDisk same

/-- A state saved for turn 1 with the name of the running model. -/
theorem demotion_lossless_of_plain :
    let cfg : TierConfig := { baseDir := ["store"], modelPath := some "m" }
    let entry := sampleEntry 1 (some 1)
    let s := (saveToWarmTier cfg "a" entry .raise 0 {}).2
    (demoteToColdTier cfg "a" 1 s).1 = true ∧ Lossless cfg s "a" entry 1 none (some 1) := by
  intro cfg entry s
  have plain : Plain "a" entry.restored.metadata :=
    ⟨by simp [entry, sampleEntry, HostPoolEntry.restored], rfl, rfl, rfl, rfl, rfl⟩
  refine ⟨by decide, ?_⟩
  exact (demotion_lossless_iff (s := s) .empty (by decide) 1 none).1.mpr (fun _ => ⟨plain, rfl⟩)

/-- A snapshot with token ids is saved to disk, promoted by a restore and demoted again: the
    copy on disk is replaced by one without the token ids. -/
theorem demotion_drops_fill_ids :
    let cfg : TierConfig := { baseDir := ["store"], modelPath := some "m" }
    let stored := demoted "a" 0 (sampleEntry 1 (some 1)).restored
    let snapshot := { stored with metadata := { stored.metadata with fillIds := some [7, 8] } }
    ∃ s, Transition.run (systemStep cfg) {} [(0, .saveToCold "a" snapshot),
        (0, .manager (.restore "a" (some 1)))] = .ok s ∧
      s.hostPool.pool.lookup "a" = some (promoted snapshot) ∧
      (demoteToColdTier cfg "a" 1 s).1 = true ∧
      (∀ selection ∈ [some 1, none], (restoreFromColdTier cfg "a" selection 2
        (demoteToColdTier cfg "a" 1 s).2).1.toOption.join.map
          (fun found => found.metadata.fillIds) =
          some none ∧
        ¬ Lossless cfg s "a" (promoted snapshot) 1 none selection) := by
  intro cfg stored snapshot
  obtain ⟨s, completed, isHeld, succeeds, dropped⟩ :
      ∃ s, Transition.run (systemStep cfg) {} [(0, .saveToCold "a" snapshot),
          (0, .manager (.restore "a" (some 1)))] = .ok s ∧
        s.hostPool.pool.lookup "a" = some (promoted snapshot) ∧
        (demoteToColdTier cfg "a" 1 s).1 = true ∧
        ∀ selection ∈ [some 1, none], (restoreFromColdTier cfg "a" selection 2
          (demoteToColdTier cfg "a" 1 s).2).1.toOption.join.map
            (fun found => found.metadata.fillIds) = some none := by decide +kernel
  refine ⟨s, completed, isHeld, succeeds, ?_⟩
  intro selection given
  refine ⟨dropped selection given, ?_⟩
  intro lossless
  obtain ⟨found, restored, -, -, same⟩ := lossless.restores succeeds 2
  have lost := dropped selection given
  rw [restored] at lost
  cases same.fillIds.symm.trans (Option.some.inj lost)

end Restored

end Engram.Tier
