import Engram.Tier.Manager

/-!
# What the tier operations do

A view forgets the order of the pool, the access times and the directories on disk: which
state each conversation has in host memory, which tier the tracker records, and which
snapshots are stored. Each operation takes a view to a view that is written down here;
later modules argue about views only.
-/

namespace Engram.Tier

open Lib Snapshot List Function

variable {τ : Type}

structure TierView (τ : Type) where
  held : String → Option (HostPoolEntry τ)
  tier : String → Option ConversationTier
  store : SnapshotKey → Option (StoredSnapshot τ)

namespace TierView

def move (conversationId : String) (tier : ConversationTier) (v : TierView τ) : TierView τ :=
  { v with tier := fun other =>
      if other = conversationId ∧ v.tier conversationId ≠ none then some tier else v.tier other }

def warm (conversationId : String) (entry : HostPoolEntry τ) (v : TierView τ) : TierView τ :=
  { v with
    held := Function.update v.held conversationId (some entry)
    tier := Function.update v.tier conversationId (some .warm) }

def cold (conversationId : String) (key : SnapshotKey) (snapshot : StoredSnapshot τ)
    (v : TierView τ) : TierView τ :=
  { v.move conversationId .cold with store := Function.update v.store key (some snapshot) }

def demote (conversationId : String) (snapshot : StoredSnapshot τ) (v : TierView τ) : TierView τ :=
  { v.cold conversationId ⟨conversationId, .turn snapshot.metadata.turnNumber⟩ snapshot with
    held := Function.update v.held conversationId none }

def archive (conversationId : String) (v : TierView τ) : TierView τ :=
  { v.move conversationId .archived with
    store := fun key =>
      match key.selector with
      | .turn _ => if key.conversationId = conversationId then none else v.store key
      | .branch _ => v.store key }

variable (v : TierView τ) (cid other : String)

@[simp] theorem move_held (tier : ConversationTier) :
    (v.move cid tier).held other = v.held other := rfl

@[simp] theorem move_tier (tier : ConversationTier) :
    (v.move cid tier).tier other =
      if other = cid ∧ v.tier cid ≠ none then some tier else v.tier other :=
  rfl

@[simp] theorem move_store (tier : ConversationTier) :
    (v.move cid tier).store = v.store := rfl

@[simp] theorem warm_held (entry : HostPoolEntry τ) :
    (v.warm cid entry).held other =
      if other = cid then some entry else v.held other :=
  update_apply ..

@[simp] theorem warm_tier (entry : HostPoolEntry τ) :
    (v.warm cid entry).tier other =
      if other = cid then some .warm else v.tier other :=
  update_apply ..

@[simp] theorem warm_store (entry : HostPoolEntry τ) :
    (v.warm cid entry).store = v.store := rfl

@[simp] theorem demote_held (snapshot : StoredSnapshot τ) :
    (v.demote cid snapshot).held other =
      if other = cid then none else v.held other :=
  update_apply ..

@[simp] theorem demote_tier (snapshot : StoredSnapshot τ) :
    (v.demote cid snapshot).tier other =
      if other = cid ∧ v.tier cid ≠ none then some .cold
      else v.tier other :=
  rfl

@[simp] theorem demote_store (snapshot : StoredSnapshot τ) :
    (v.demote cid snapshot).store = Function.update v.store
      ⟨cid, .turn snapshot.metadata.turnNumber⟩ (some snapshot) :=
  rfl

@[simp] theorem archive_held :
    (v.archive cid).held other = v.held other := rfl

@[simp] theorem archive_tier :
    (v.archive cid).tier other =
      if other = cid ∧ v.tier cid ≠ none then some .archived
      else v.tier other :=
  rfl

@[simp] theorem archive_store_turn (turn : Int) :
    (v.archive cid).store ⟨other, .turn turn⟩ =
      if other = cid then none else v.store ⟨other, .turn turn⟩ :=
  rfl

@[simp] theorem archive_store_branch (branch : String) :
    (v.archive cid).store ⟨other, .branch branch⟩ =
      v.store ⟨other, .branch branch⟩ :=
  rfl

structure SameAt (v v' : TierView τ) (conversationId : String) : Prop where
  held : v'.held conversationId = v.held conversationId
  tier : v'.tier conversationId = v.tier conversationId
  store : ∀ selector, v'.store ⟨conversationId, selector⟩ = v.store ⟨conversationId, selector⟩

variable {v cid other}

theorem sameAt_move (different : other ≠ cid) (tier : ConversationTier) :
    SameAt v (v.move cid tier) other :=
  ⟨rfl, by simp [different], fun _ => rfl⟩

section

variable (different : other ≠ cid)

include different

theorem sameAt_warm (entry : HostPoolEntry τ) :
    SameAt v (v.warm cid entry) other :=
  ⟨by simp [different], by simp [different], fun _ => rfl⟩

theorem sameAt_cold {key : SnapshotKey}
    (owned : key.conversationId = cid) (snapshot : StoredSnapshot τ) :
    SameAt v (v.cold cid key snapshot) other where
  held := rfl
  tier := (sameAt_move different .cold).tier
  store := by
    intro selector
    refine update_of_ne ?_ ..
    rintro rfl
    exact different owned

theorem sameAt_demote (snapshot : StoredSnapshot τ) :
    SameAt v (v.demote cid snapshot) other where
  held := by simp [different]
  tier := (sameAt_move different .cold).tier
  store := (sameAt_cold different rfl snapshot).store

theorem sameAt_archive :
    SameAt v (v.archive cid) other where
  held := rfl
  tier := (sameAt_move different .archived).tier
  store := by
    intro selector
    cases selector with
    | turn turn => simp [different]
    | branch branch => simp

end

end TierView

/-- The model name of an entry, `None` where its dictionary has none. -/
def HostPoolEntry.modelName (entry : HostPoolEntry τ) : Key :=
  entry.restored.metadata.modelName

def Selected (store : SnapshotKey → Option (StoredSnapshot τ)) (conversationId : String) :
    Option Int → StoredSnapshot τ → Prop
  | some turn, snapshot => store ⟨conversationId, .turn turn⟩ = some snapshot
  | none, snapshot => ∃ turn, IsLatest store conversationId turn snapshot

variable [Torch τ]

def PromotionFits (cfg : TierConfig) (now : Nat) (s : TierState τ) (conversationId : String)
    (turnNumber : Option Int) : Prop :=
  s.hostPool.hasState conversationId = false →
    s.tracker.getTier conversationId = some .cold ∨ turnNumber ≠ none →
    ∀ snapshot, (restoreFromColdTier cfg conversationId turnNumber now s).1 = .ok (some snapshot) →
      s.hostPool.HasRoom cfg.limits (promoted snapshot).memoryBytes

/-! ### A state in the pool -/

section Held

variable (cfg : TierConfig) {s : TierState τ} {cid : String} {entry : HostPoolEntry τ}

omit [Torch τ] in
theorem restoreFromWarmTier_of_lookup (found : s.hostPool.pool.lookup cid = some entry)
    (now : Nat) : (restoreFromWarmTier cfg cid now s).1 =
      if cfg.modelMismatch entry.modelName then .error (cfg.mismatchError entry.modelName)
      else .ok (some entry.restored) := by
  rw [restoreFromWarmTier, MambaHostPool.getState_of_some found, HostPoolEntry.modelName]
  simp only
  split
  · rfl
  · rfl

theorem restoreConversation_of_lookup (found : s.hostPool.pool.lookup cid = some entry)
    (turnNumber : Option Int) (now : Nat) :
    restoreConversation cfg cid turnNumber now s =
      restoreFromWarmTier cfg cid now s := by
  have present := MambaHostPool.hasState_of_some found
  have answer := restoreFromWarmTier_of_lookup cfg found now
  unfold restoreConversation
  simp only [present, or_true, if_true]
  split
  · next restored => exact restored.symm
  · next restored => exact restored.symm
  · -- a held state is refused or returned, never missed
    next missed =>
    rw [missed] at answer
    split at answer
    · cases answer
    · cases answer

end Held

structure Views (cfg : TierConfig) (s : TierState τ) (v : TierView τ) : Prop where
  held : ∀ conversationId, s.hostPool.pool.lookup conversationId = v.held conversationId
  tier : ∀ conversationId, s.tracker.getTier conversationId = v.tier conversationId
  onDisk : OnDisk cfg.baseDir s.disk v.store

namespace Views

variable {cfg : TierConfig} {s : TierState τ} {v : TierView τ} {cid : String}
  {entry : HostPoolEntry τ} {turnNumber : Option Int} {now : Nat} {snapshot : StoredSnapshot τ}

section

variable (views : Views cfg s v)

include views

theorem opened {disk : FileSystem (Content τ)}
    (opens : Opened cfg.baseDir cid s.disk disk) : Views cfg { s with disk } v :=
  ⟨views.held, views.tier, views.onDisk.opened opens⟩

theorem markAccessed (cid : String) (now : Nat) :
    Views cfg { s with tracker := s.tracker.markAccessed cid now } v :=
  ⟨views.held, fun other => by simp [views.tier], views.onDisk⟩

theorem moveToEnd (cid : String) :
    Views cfg { s with hostPool :=
      { s.hostPool with pool := s.hostPool.pool.moveToEnd cid } } v :=
  ⟨fun other => by simp [views.held], views.tier, views.onDisk⟩

theorem transitionTier (cid : String) (tier : ConversationTier) :
    Views cfg { s with tracker := (s.tracker.transitionTier cid tier).2 }
      (v.move cid tier) := by
  refine ⟨views.held, ?_, views.onDisk⟩
  intro other
  rw [ConversationTracker.getTier_transitionTier, views.tier, views.tier]
  rfl

theorem hasState_iff :
    s.hostPool.hasState cid = true ↔ v.held cid ≠ none := by
  rw [MambaHostPool.hasState_eq, views.held, Option.isSome_iff_ne_none]

theorem hasSnapshot_iff {key : SnapshotKey} :
    HasSnapshot cfg.baseDir s.disk key ↔ (v.store key).isSome = true :=
  views.onDisk.hasSnapshot_iff

end

/-! ### The warm tier -/

section

variable (views : Views cfg s v)

include views

theorem restoreFromWarmTier_none (absent : v.held cid = none)
    (now : Nat) : restoreFromWarmTier cfg cid now s = (.ok none, s) := by
  rw [← views.held] at absent
  rw [restoreFromWarmTier, MambaHostPool.getState_of_none absent]

theorem restoreFromWarmTier_some (isHeld : v.held cid = some entry)
    (now : Nat) : ∃ s', restoreFromWarmTier cfg cid now s =
        (if cfg.modelMismatch entry.modelName then .error (cfg.mismatchError entry.modelName)
          else .ok (some entry.restored), s') ∧ Views cfg s' v := by
  have found := (views.held cid).trans isHeld
  refine ⟨_, Prod.ext (restoreFromWarmTier_of_lookup cfg found now) rfl, ?_⟩
  have touched := views.moveToEnd cid
  rw [Tier.restoreFromWarmTier, MambaHostPool.getState_of_some found]
  simp only
  split
  · exact touched
  · exact touched.markAccessed cid now

theorem restoreFromWarmTier (cid : String) (now : Nat) :
    Views cfg (restoreFromWarmTier cfg cid now s).2 v := by
  cases isHeld : v.held cid with
  | none =>
    rw [views.restoreFromWarmTier_none isHeld]
    exact views
  | some entry =>
    obtain ⟨s', restored, views'⟩ := views.restoreFromWarmTier_some isHeld now
    rw [restored]
    exact views'

theorem saveToWarmTier_of_hasRoom
    (valid : (validateStateTensors entry.convStates entry.temporalStates none false).isValid = true)
    (room : s.hostPool.HasRoom cfg.limits entry.memoryBytes) (cid : String)
    (policy : ValidationPolicy) (now : Nat) :
    ∃ s', saveToWarmTier cfg cid entry policy now s = (.ok true, s') ∧
      Views cfg s' (v.warm cid entry) := by
  obtain ⟨saved, entries⟩ := MambaHostPool.saveState_of_hasRoom room cid
  have result : s.hostPool.saveState cfg.limits cid entry =
      (true, (s.hostPool.saveState cfg.limits cid entry).2) := Prod.ext saved rfl
  unfold saveToWarmTier
  rw [if_neg (by simp [valid]), result]
  refine ⟨_, rfl, ?_, ?_, views.onDisk⟩
  · intro other
    rw [entries, TierView.warm_held, views.held]
  intro other
  rw [TierView.warm_tier, ← views.tier]
  split
  · simp
  · next registered =>
    have present : s.tracker.getTier cid ≠ none := by
      rw [ConversationTracker.getTier]
      simpa using registered
    rw [ConversationTracker.getTier_transitionTier]
    simp [present]

end

theorem saveToWarmTier_of_invalid
    (invalid : (validateStateTensors entry.convStates entry.temporalStates none
      false).isValid = false) (cfg : TierConfig) (cid : String)
    (policy : ValidationPolicy) (now : Nat) (s : TierState τ) :
    ∃ answer, saveToWarmTier cfg cid entry policy now s = (answer, s) ∧
      answer ≠ .ok true := by
  unfold saveToWarmTier
  rw [if_pos invalid]
  cases policy with
  | raise => exact ⟨_, rfl, by simp⟩
  | logAndContinue => exact ⟨_, rfl, by simp⟩

/-! ### The cold tier -/

theorem restoreTurn (views : Views cfg s v) (cid : String) (turn : Int) (now : Nat) :
    ∃ answer s', restoreTurn cfg cid turn now s = (answer, s') ∧ Views cfg s' v ∧
      s'.hostPool = s.hostPool ∧
      ∀ snapshot, answer = .ok (some snapshot) ↔
        v.store ⟨cid, .turn turn⟩ = some snapshot ∧
          cfg.modelMismatch (some snapshot.metadata.modelName) = false := by
  have opens := loadSnapshot_opened cfg.baseDir cid (some turn) none s.disk
  obtain ⟨disk, -, ⟨key, snapshot, named, stored, loaded⟩ | ⟨error, refused, nothing⟩⟩ :=
    views.onDisk.load_cases cid (some turn) none
  · cases named
    rw [loaded] at opens
    rw [Tier.restoreTurn, loaded]
    simp only
    split
    · next differs =>
      refine ⟨_, _, rfl, views.opened opens, rfl, ?_⟩
      intro other
      constructor
      · intro answered
        cases answered
      · rintro ⟨same, agrees⟩
        cases stored.symm.trans same
        rw [agrees] at differs
        cases differs
    · next agrees =>
      refine ⟨_, _, rfl, (views.opened opens).markAccessed cid now, rfl, ?_⟩
      intro other
      constructor
      · intro answered
        cases answered
        exact ⟨stored, by simpa using agrees⟩
      · rintro ⟨same, -⟩
        cases stored.symm.trans same
        rfl
  · rw [refused] at opens
    rw [Tier.restoreTurn, refused]
    refine ⟨_, _, rfl, views.opened opens, rfl, ?_⟩
    intro other
    constructor
    · intro answered
      cases error <;> cases answered
    · rintro ⟨same, -⟩
      cases (nothing _ rfl).symm.trans same

theorem restoreFromColdTier (views : Views cfg s v) (cid : String)
    (turnNumber : Option Int) (now : Nat) :
    ∃ answer s', restoreFromColdTier cfg cid turnNumber now s = (answer, s') ∧
      Views cfg s' v ∧ s'.hostPool = s.hostPool ∧
      ∀ snapshot, answer = .ok (some snapshot) ↔
        Selected v.store cid turnNumber snapshot ∧
          cfg.modelMismatch (some snapshot.metadata.modelName) = false := by
  cases turnNumber with
  | some turn => exact views.restoreTurn cid turn now
  | none =>
    have opens := getLatestSnapshot_opened cfg.baseDir cid s.disk
    rcases views.onDisk.getLatestSnapshot_cases cid with
      ⟨turn, latest, disk, isLatest, found⟩ | ⟨nothing, disk, found⟩
    · rw [found] at opens
      obtain ⟨answer, s', restored, views', pool, exactly⟩ :=
        (views.opened opens).restoreTurn cid turn now
      refine ⟨answer, s', ?_, views', pool, ?_⟩
      · rw [Tier.restoreFromColdTier, found]
        exact restored
      intro snapshot
      rw [exactly]
      refine and_congr_left' ?_
      constructor
      · intro stored
        cases isLatest.1.symm.trans stored
        exact ⟨turn, isLatest⟩
      · rintro ⟨other, isLatest'⟩
        obtain ⟨rfl, rfl⟩ := isLatest.unique isLatest'
        exact isLatest.1
    · have unselected : ∀ snapshot, ¬ Selected v.store cid none snapshot := by
        rintro snapshot ⟨turn, isLatest⟩
        cases (nothing turn).symm.trans isLatest.1
      rcases found with found | ⟨error, found⟩
      · rw [found] at opens
        rw [Tier.restoreFromColdTier, found]
        refine ⟨_, _, rfl, views.opened opens, rfl, ?_⟩
        intro snapshot
        simp [unselected]
      · rw [found] at opens
        rw [Tier.restoreFromColdTier, found]
        refine ⟨_, _, rfl, views.opened opens, rfl, ?_⟩
        intro snapshot
        cases error <;> simp [propagate, unselected]

theorem restoreFromColdTier_eq_ok_iff (views : Views cfg s v) :
    (Tier.restoreFromColdTier cfg cid turnNumber now s).1 = .ok (some snapshot) ↔
      Selected v.store cid turnNumber snapshot ∧
        cfg.modelMismatch (some snapshot.metadata.modelName) = false := by
  obtain ⟨answer, s', restored, -, -, exactly⟩ :=
    views.restoreFromColdTier cid turnNumber now
  rw [restored]
  exact exactly snapshot

/-! ### Restores -/

section

variable (views : Views cfg s v)

include views

theorem restoreConversation_of_held (isHeld : v.held cid = some entry) (turnNumber : Option Int)
    (now : Nat) :
    ∃ s', restoreConversation cfg cid turnNumber now s =
        (if cfg.modelMismatch entry.modelName then .error (cfg.mismatchError entry.modelName)
          else .ok (some entry.restored), s') ∧ Views cfg s' v := by
  rw [restoreConversation_of_lookup cfg ((views.held cid).trans isHeld)]
  exact views.restoreFromWarmTier_some isHeld now

theorem restoreConversation_of_not_held (absent : v.held cid = none) (turnNumber : Option Int)
    (now : Nat) :
    restoreConversation cfg cid turnNumber now s =
      if v.tier cid = some .cold ∨ turnNumber ≠ none then
        restoreAndPromote cfg cid turnNumber now s
      else (.ok none, s) := by
  have missed := views.restoreFromWarmTier_none absent now
  unfold Tier.restoreConversation
  simp only [missed, ite_self, views.tier]

theorem restoreAndPromote (cid : String) (turnNumber : Option Int) (now : Nat) :
    (∃ snapshot s₁, Selected v.store cid turnNumber snapshot ∧
      cfg.modelMismatch (some snapshot.metadata.modelName) = false ∧
      Views cfg s₁ v ∧ s₁.hostPool = s.hostPool ∧
      restoreAndPromote cfg cid turnNumber now s =
        (.ok (some (promoted snapshot).restored),
          (saveToWarmTier cfg cid (promoted snapshot) .logAndContinue now s₁).2)) ∨
    ∃ answer s', restoreAndPromote cfg cid turnNumber now s = (answer, s') ∧
      Views cfg s' v ∧ (∀ restored, answer ≠ .ok (some restored)) ∧
      ∀ snapshot, Selected v.store cid turnNumber snapshot →
        cfg.modelMismatch (some snapshot.metadata.modelName) = true := by
  obtain ⟨answer, s₁, restored, views₁, pool, exactly⟩ :=
    views.restoreFromColdTier cid turnNumber now
  have differs : (∀ snapshot, answer ≠ .ok (some snapshot)) →
      ∀ snapshot, Selected v.store cid turnNumber snapshot →
        cfg.modelMismatch (some snapshot.metadata.modelName) = true := by
    intro nothing snapshot selected
    by_contra agrees
    exact nothing snapshot ((exactly snapshot).mpr ⟨selected, by simpa using agrees⟩)
  match answer with
  | .error error =>
    refine .inr ⟨_, s₁, by rw [Tier.restoreAndPromote, restored], views₁, by simp,
      differs (by simp)⟩
  | .ok none =>
    refine .inr ⟨_, s₁, by rw [Tier.restoreAndPromote, restored], views₁, by simp,
      differs (by simp)⟩
  | .ok (some snapshot) =>
    obtain ⟨selected, agrees⟩ := (exactly snapshot).mp rfl
    exact .inl ⟨snapshot, s₁, selected, agrees, views₁, pool,
      by rw [Tier.restoreAndPromote, restored]; rfl⟩

theorem valid_of_selected (selected : Selected v.store cid turnNumber snapshot) :
    (validateStateTensors snapshot.convStates snapshot.temporalStates none false).isValid =
    true := by
  obtain ⟨turn, stored⟩ : ∃ turn, v.store ⟨cid, .turn turn⟩ = some snapshot := by
    cases turnNumber with
    | some turn => exact ⟨turn, selected⟩
    | none =>
      obtain ⟨turn, latest⟩ := selected
      exact ⟨turn, latest.1⟩
  rw [validateStateTensors_isValid_iff,
    ← validateStateTensors_isValid_iff _ _ (some snapshot.metadata.conversationId)]
  exact (views.onDisk.refines.storable _ _ stored).2

/-- What a restore does when a promotion finds room: the state in host memory, the
    snapshot on disk with its promotion, or nothing. -/
theorem restoreConversation_cases (fits : PromotionFits cfg now s cid turnNumber) :
    (∃ entry s', v.held cid = some entry ∧
      restoreConversation cfg cid turnNumber now s =
        (if cfg.modelMismatch entry.modelName then .error (cfg.mismatchError entry.modelName)
          else .ok (some entry.restored), s') ∧ Views cfg s' v) ∨
    (∃ snapshot s', v.held cid = none ∧
      Selected v.store cid turnNumber snapshot ∧
      cfg.modelMismatch (some snapshot.metadata.modelName) = false ∧
      restoreConversation cfg cid turnNumber now s =
        (.ok (some (promoted snapshot).restored), s') ∧
      Views cfg s' (v.warm cid (promoted snapshot))) ∨
    ∃ answer s', v.held cid = none ∧
      restoreConversation cfg cid turnNumber now s = (answer, s') ∧ Views cfg s' v ∧
      (v.tier cid = some .cold ∨ turnNumber ≠ none →
        ∀ snapshot, Selected v.store cid turnNumber snapshot →
          cfg.modelMismatch (some snapshot.metadata.modelName) = true) := by
  cases isHeld : v.held cid with
  | some entry =>
    obtain ⟨s', restored, views'⟩ := views.restoreConversation_of_held isHeld turnNumber now
    exact .inl ⟨entry, s', rfl, restored, views'⟩
  | none =>
    right
    rw [views.restoreConversation_of_not_held isHeld]
    by_cases asked : v.tier cid = some .cold ∨ turnNumber ≠ none
    · have absent : s.hostPool.hasState cid = false :=
        MambaHostPool.hasState_of_none ((views.held cid).trans isHeld)
      rw [if_pos asked]
      rcases views.restoreAndPromote cid turnNumber now with
        ⟨snapshot, s₁, selected, agrees, views₁, pool, answered⟩ |
        ⟨answer, s', answered, views', -, differs⟩
      · -- the snapshot was validated when it was saved, so the promotion saves it
        left
        have room := fits absent (by rwa [views.tier]) snapshot
          (views.restoreFromColdTier_eq_ok_iff.mpr ⟨selected, agrees⟩)
        rw [← pool] at room
        have valid : (validateStateTensors (promoted snapshot).convStates
            (promoted snapshot).temporalStates none false).isValid = true :=
          views.valid_of_selected selected
        obtain ⟨s', saved, views'⟩ :=
          views₁.saveToWarmTier_of_hasRoom valid room cid .logAndContinue now
        rw [saved] at answered
        exact ⟨snapshot, s', rfl, selected, agrees, answered, views'⟩
      · exact .inr ⟨answer, s', rfl, answered, views', fun _ => differs⟩
    · -- the disk is not asked at all
      rw [if_neg asked]
      exact .inr ⟨_, s, rfl, rfl, views, fun isAsked => absurd isAsked asked⟩

/-- A reference that the switch forbids, or that host memory does not have, is a restore. -/
theorem loadCrossSessionReference (current reference : String) (now : Nat) :
    (∃ entry s', cfg.limits.enableCrossSessionRefs = true ∧ v.held reference = some entry ∧
      loadCrossSessionReference cfg current reference now s =
        (.ok (some entry.restored), s') ∧ Views cfg s' v) ∨
    loadCrossSessionReference cfg current reference now s =
      restoreConversation cfg reference none now s := by
  by_cases off : cfg.limits.enableCrossSessionRefs = false
  · right
    rw [Tier.loadCrossSessionReference, MambaHostPool.getStateForReference, if_pos off]
  cases isHeld : v.held reference with
  | none =>
    right
    rw [← views.held] at isHeld
    rw [Tier.loadCrossSessionReference, MambaHostPool.getStateForReference, if_neg off,
      MambaHostPool.getState_of_none isHeld]
  | some entry =>
    left
    have found := isHeld
    rw [← views.held] at found
    refine ⟨entry, _, by simpa using off, rfl, ?_, views.moveToEnd reference⟩
    rw [Tier.loadCrossSessionReference, MambaHostPool.getStateForReference, if_neg off,
      MambaHostPool.getState_of_some found]

end

/-! ### Saves to disk, demotions and cleanup -/

theorem saveToColdTier (views : Views cfg s v) (cid : String) (snapshot : StoredSnapshot τ) :
    (∃ s', saveToColdTier cfg cid snapshot s = (false, s') ∧ Views cfg s' v ∧
      s'.hostPool = s.hostPool) ∨
    ∃ s' key, saveToColdTier cfg cid snapshot s = (true, s') ∧
      snapshot.key = some key ∧ key.Accepted ∧ snapshot.Storable ∧
      Views cfg s' (v.cold cid key snapshot) ∧ s'.hostPool = s.hostPool := by
  rcases views.onDisk.save snapshot with
    ⟨error, disk, refused, onDisk⟩ | ⟨paths, disk, key, written, named, accepted, storable, onDisk⟩
  · left
    exact ⟨{ s with disk }, by rw [Tier.saveToColdTier, refused],
      ⟨views.held, views.tier, onDisk⟩, rfl⟩
  · right
    have moved := views.transitionTier cid .cold
    exact ⟨{ s with disk, tracker := (s.tracker.transitionTier cid .cold).2 }, key,
      by rw [Tier.saveToColdTier, written], named, accepted, storable,
      ⟨moved.held, moved.tier, onDisk⟩, rfl⟩

/-- A demotion that fails changes nothing, one that succeeds moves the state to disk. -/
theorem demoteToColdTier_of_held (views : Views cfg s v)
    (isHeld : v.held cid = some entry) (now : Nat) :
    (∃ s', demoteToColdTier cfg cid now s = (false, s') ∧ Views cfg s' v) ∨
    ∃ s', demoteToColdTier cfg cid now s = (true, s') ∧
      (SnapshotKey.mk cid
        (.turn (demoted cid now entry.restored).metadata.turnNumber)).Accepted ∧
      (demoted cid now entry.restored).Storable ∧
      Views cfg s' (v.demote cid (demoted cid now entry.restored)) := by
  have found := isHeld
  rw [← views.held] at found
  rcases (views.moveToEnd cid).saveToColdTier cid
      (demoted cid now entry.restored) with
    ⟨s', refused, views', -⟩ | ⟨s', key, saved, named, accepted, storable, views', -⟩
  · left
    refine ⟨s', ?_, views'⟩
    rw [Tier.demoteToColdTier, MambaHostPool.getState_of_some found]
    simp only [refused]
  right
  cases named
  refine ⟨{ s' with hostPool := (s'.hostPool.removeState cid).2 }, ?_, accepted,
    storable, ?_, views'.tier, views'.onDisk⟩
  · rw [Tier.demoteToColdTier, MambaHostPool.getState_of_some found]
    simp only [saved]
  · intro other
    rw [MambaHostPool.removeState_lookup, TierView.demote_held, views'.held]
    rfl

theorem deleteUntilError {fs : FileSystem (Content τ)}
    {store : SnapshotKey → Option (StoredSnapshot τ)} (onDisk : OnDisk cfg.baseDir fs store)
    (turns : List Int) (accepted : ∀ turn ∈ turns, (SnapshotKey.mk cid (.turn turn)).Accepted) :
    ∃ fs', deleteUntilError cfg cid turns fs = (true, fs') ∧
      OnDisk cfg.baseDir fs' (without (turns.map (fun turn => ⟨cid, .turn turn⟩)) store) := by
  induction turns generalizing fs store with
  | nil => exact ⟨fs, rfl, (without_nil store).symm ▸ onDisk⟩
  | cons turn rest ih =>
    obtain ⟨fs₁, deleted, onDisk₁⟩ := onDisk.delete
      (show keyOf cid (some turn) none = some _ from rfl)
      (accepted turn (mem_cons_self ..))
    obtain ⟨fs₂, later, onDisk₂⟩ := ih onDisk₁
      (fun other member => accepted other (mem_cons_of_mem _ member))
    refine ⟨fs₂, ?_, ?_⟩
    · rw [Tier.deleteUntilError, deleted]
      exact later
    · rw [map_cons, ← without_cons]
      exact onDisk₂

/-- Archiving changes nothing or removes all turns of the conversation. -/
theorem archive_effect (views : Views cfg s v) (cid : String) :
    ∃ v', Views cfg (archive cfg cid s).2 v' ∧
      (v' = v ∨ v' = v.archive cid) := by
  rcases getConversationDir_cases cfg.baseDir cid s.disk with
    sanitized | ⟨error, refused⟩
  · obtain ⟨turns, disk₁, listed, onDisk₁, -, listedIff⟩ := views.onDisk.listSnapshots sanitized
    obtain ⟨disk₂, deleted, onDisk₂⟩ := deleteUntilError onDisk₁ turns
      (fun turn member => views.onDisk.accepted ((listedIff turn).mp member))
    -- the listed turns are all the turns of the conversation
    have store : without (turns.map (fun turn => ⟨cid, .turn turn⟩)) v.store =
        (v.archive cid).store := by
      funext key
      obtain ⟨owner, selector⟩ := key
      cases selector with
      | branch branch =>
        exact without_of_not_mem (by simp) v.store
      | turn turn =>
        rw [TierView.archive_store_turn]
        split
        · next same =>
          subst same
          by_cases isListed : turn ∈ turns
          · exact without_of_mem (mem_map_of_mem isListed) v.store
          · rw [without_of_not_mem (by simpa using isListed)]
            simpa using (listedIff turn).mpr.mt isListed
        · next different =>
          refine without_of_not_mem ?_ v.store
          intro member
          obtain ⟨listedTurn, -, same⟩ := mem_map.mp member
          cases same
          exact different rfl
    have moved := views.transitionTier cid .archived
    rw [Tier.archive, listed]
    simp only [deleted]
    exact ⟨v.archive cid, ⟨moved.held, moved.tier, store ▸ onDisk₂⟩, .inr rfl⟩
  · rw [Tier.archive, Snapshot.listSnapshots, refused]
    exact ⟨v, views, .inl rfl⟩

/-! ### The view after a call -/

section

variable (views : Views cfg s v)

include views

theorem restoreFromColdTier_effect (cid : String) (turnNumber : Option Int) (now : Nat) :
    Views cfg (Tier.restoreFromColdTier cfg cid turnNumber now s).2 v := by
  obtain ⟨answer, s', restored, views', -⟩ :=
    views.restoreFromColdTier cid turnNumber now
  rw [restored]
  exact views'

theorem restoreConversation_effect (fits : PromotionFits cfg now s cid turnNumber) :
    ∃ v', Views cfg (restoreConversation cfg cid turnNumber now s).2 v' ∧
      (v' = v ∨ ∃ snapshot, v.held cid = none ∧
        Selected v.store cid turnNumber snapshot ∧
        cfg.modelMismatch (some snapshot.metadata.modelName) = false ∧
        v' = v.warm cid (promoted snapshot)) := by
  rcases views.restoreConversation_cases fits with
    ⟨entry, s', -, restored, views'⟩ |
    ⟨snapshot, s', absent, selected, agrees, restored, views'⟩ |
    ⟨answer, s', -, restored, views', -⟩
  · rw [restored]
    exact ⟨v, views', .inl rfl⟩
  · rw [restored]
    exact ⟨_, views', .inr ⟨snapshot, absent, selected, agrees, rfl⟩⟩
  · rw [restored]
    exact ⟨v, views', .inl rfl⟩

theorem loadCrossSessionReference_effect (current : String)
    {reference : String} (fits : PromotionFits cfg now s reference none) :
    ∃ v', Views cfg (Tier.loadCrossSessionReference cfg current reference now s).2 v' ∧
      (v' = v ∨ ∃ snapshot, v.held reference = none ∧ Selected v.store reference none snapshot ∧
        cfg.modelMismatch (some snapshot.metadata.modelName) = false ∧
        v' = v.warm reference (promoted snapshot)) := by
  rcases views.loadCrossSessionReference current reference now with
    ⟨entry, s', -, -, loaded, views'⟩ | restored
  · rw [loaded]
    exact ⟨v, views', .inl rfl⟩
  · rw [restored]
    exact views.restoreConversation_effect fits

theorem demoteToColdTier_effect (cid : String) (now : Nat) :
    ∃ v', Views cfg (demoteToColdTier cfg cid now s).2 v' ∧
      (v' = v ∨ ∃ entry, v.held cid = some entry ∧
        v' = v.demote cid (demoted cid now entry.restored)) := by
  cases isHeld : v.held cid with
  | none =>
    rw [← views.held] at isHeld
    rw [Tier.demoteToColdTier, MambaHostPool.getState_of_none isHeld]
    exact ⟨v, views, .inl rfl⟩
  | some entry =>
    rcases views.demoteToColdTier_of_held isHeld now with
      ⟨s', refused, views'⟩ | ⟨s', done, -, -, views'⟩
    · rw [refused]
      exact ⟨v, views', .inl rfl⟩
    · rw [done]
      exact ⟨_, views', .inr ⟨entry, rfl, rfl⟩⟩

theorem saveToColdTier_effect (cid : String) (snapshot : StoredSnapshot τ) :
    ∃ v', Views cfg (Tier.saveToColdTier cfg cid snapshot s).2 v' ∧
      (v' = v ∨ ∃ key, snapshot.key = some key ∧ v' = v.cold cid key snapshot) := by
  rcases views.saveToColdTier cid snapshot with
    ⟨s', refused, views', -⟩ | ⟨s', key, saved, named, -, -, views', -⟩
  · rw [refused]
    exact ⟨v, views', .inl rfl⟩
  · rw [saved]
    exact ⟨_, views', .inr ⟨key, named, rfl⟩⟩

end

end Views

/-! ### Loops -/

section Loops

variable {cfg : TierConfig} {P : TierState τ → Prop}

variable (conversationIds : List String)

theorem demoteEach_preserves {now : Nat} (preserved : ∀ cid ∈ conversationIds, ∀ s, P s →
      P (demoteToColdTier cfg cid now s).2) (s : TierState τ) (holds : P s) :
    P (demoteEach cfg now conversationIds s).2 := by
  induction conversationIds generalizing s with
  | nil => exact holds
  | cons cid rest ih =>
    exact ih (fun other member => preserved other (mem_cons_of_mem _ member)) _
      (preserved cid (mem_cons_self ..) s holds)

omit [Torch τ] in
theorem archiveEach_preserves (preserved : ∀ cid ∈ conversationIds, ∀ s, P s →
      P (archive cfg cid s).2) (s : TierState τ) (holds : P s) :
    P (archiveEach cfg conversationIds s).2 := by
  induction conversationIds generalizing s with
  | nil => exact holds
  | cons cid rest ih =>
    exact ih (fun other member => preserved other (mem_cons_of_mem _ member)) _
      (preserved cid (mem_cons_self ..) s holds)

end Loops

end Engram.Tier
