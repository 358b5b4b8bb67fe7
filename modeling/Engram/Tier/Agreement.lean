import Engram.Lib.Transition
import Engram.Tier.Effects

/-!
# Agreement of the tracker with the storage

The tier of a conversation is kept in the tracker and its data in the pool and on disk. Each
operation updates the tracker together with the place it writes to, so the records agree as long
as nothing is evicted, the API asks only for transitions that the data supports, and the startup
restore reaches every conversation on disk (`tracker_agrees_with_storage`).
-/

namespace Engram.Tier

open Lib Lib.Transition Snapshot

variable {τ : Type} [Torch τ]

def Available (cfg : TierConfig) (s : TierState τ) (conversationId : String) : Prop :=
  s.hostPool.hasState conversationId = true ∨
    ∃ turn snapshot, (loadSnapshot cfg.baseDir conversationId (some turn) none s.disk).1 =
      .ok snapshot

structure Agrees (cfg : TierConfig) (s : TierState τ) : Prop where
  warm : ∀ conversationId, s.tracker.getTier conversationId = some .warm →
    s.hostPool.hasState conversationId = true
  cold : ∀ conversationId, s.tracker.getTier conversationId = some .cold →
    ∃ selector, HasSnapshot cfg.baseDir s.disk ⟨conversationId, selector⟩
  restores : ∀ conversationId, Available cfg s conversationId → ∀ now, ∃ restored,
    (restoreConversation cfg conversationId none now s).1 = .ok (some restored)

/-! ### The calls that keep the agreement -/

section Conditions

variable (cfg : TierConfig)

omit [Torch τ] in
def NamesModel (s : TierState τ) (conversationId : String) : Prop :=
  ∀ entry, s.hostPool.pool.lookup conversationId = some entry →
    cfg.modelMismatch (some (entry.modelName.getD "unknown")) = false

/-- Each round of a startup restore finds room for what it promotes. -/
def PreloadsFit (now : Nat) : List String → TierState τ → Prop
  | [], _ => True
  | conversationId :: rest, s =>
    (∀ turn metadata, (getLatestSnapshot cfg.baseDir conversationId s.disk).1 =
        .ok (some (turn, metadata)) → PromotionFits cfg now s conversationId (some turn)) ∧
      PreloadsFit now rest (preload cfg conversationId now s).2

omit [Torch τ] in
/-- The data is where the target tier says, or a restore does not need the tier. -/
def Supported (s : TierState τ) (conversationId : String) : ConversationTier → Prop
  | .warm => s.hostPool.hasState conversationId = true
  | .cold => ∃ selector, HasSnapshot cfg.baseDir s.disk ⟨conversationId, selector⟩
  | .active => s.hostPool.hasState conversationId = true ∨
      ∀ turn, ¬ HasSnapshot cfg.baseDir s.disk ⟨conversationId, .turn turn⟩
  | .archived => s.hostPool.hasState conversationId = true ∨
      ∀ turn, ¬ HasSnapshot cfg.baseDir s.disk ⟨conversationId, .turn turn⟩

def TierCall.Orderly (now : Nat) (s : TierState τ) : TierCall τ → Prop
  | .saveToWarm _ entry _ =>
    (validateStateTensors entry.convStates entry.temporalStates none false).isValid = true →
      s.hostPool.HasRoom cfg.limits entry.memoryBytes ∧ cfg.modelMismatch entry.modelName = false
  | .restoreFromWarm _ => True
  | .restoreFromCold _ _ => True
  | .restore conversationId turnNumber => PromotionFits cfg now s conversationId turnNumber
  | .loadReference _ reference => PromotionFits cfg now s reference none
  | .demote conversationId => NamesModel cfg s conversationId
  | .cleanup =>
    ∀ conversationId ∈ (s.tracker.checkTransitionsNeeded cfg.timeouts now).warmToCold,
      NamesModel cfg s conversationId

def Orderly (s : TierState τ) (event : Nat × SystemCall τ) : Prop :=
  match event.2 with
  | .manager call => call.Orderly cfg event.1 s
  | .saveToCold conversationId snapshot =>
    snapshot.metadata.conversationId = conversationId ∧
      s.tracker.getTier conversationId ≠ none ∧
      cfg.modelMismatch (some snapshot.metadata.modelName) = false
  | .startup => PreloadsFit cfg event.1 (listConversations cfg.baseDir s.disk) s
  | .transition conversationId targetTier =>
    ∀ target, ConversationTier.parse targetTier = some target →
      Supported cfg s conversationId target

end Conditions

/-! ### The agreement of a view -/

structure AgreedAt (cfg : TierConfig) (v : TierView τ) (conversationId : String) : Prop where
  registered : v.held conversationId ≠ none → v.tier conversationId ≠ none
  warm : v.tier conversationId = some .warm → v.held conversationId ≠ none
  cold : v.tier conversationId = some .cold →
    ∃ selector, (v.store ⟨conversationId, selector⟩).isSome = true
  heldModel : ∀ entry, v.held conversationId = some entry →
    cfg.modelMismatch entry.modelName = false
  storedModel : ∀ turn snapshot, v.store ⟨conversationId, .turn turn⟩ = some snapshot →
    cfg.modelMismatch (some snapshot.metadata.modelName) = false

omit [Torch τ] in
/-- A restore without a turn number finds what is on disk. -/
def FoundAt (v : TierView τ) (conversationId : String) : Prop :=
  ∀ turn, (v.store ⟨conversationId, .turn turn⟩).isSome = true →
    v.held conversationId ≠ none ∨ v.tier conversationId = some .cold

def Agreed (cfg : TierConfig) (waiting : List String) (v : TierView τ) : Prop :=
  (∀ conversationId, AgreedAt cfg v conversationId) ∧
    ∀ conversationId, conversationId ∉ waiting → FoundAt v conversationId

section Agreed

variable {cfg : TierConfig} {waiting waiting' : List String} {v v' : TierView τ}
  {cid : String}

omit [Torch τ]

theorem AgreedAt.sameAt (agreed : AgreedAt cfg v cid)
    (same : v.SameAt v' cid) : AgreedAt cfg v' cid where
  registered := by simpa only [same.held, same.tier] using agreed.registered
  warm := by simpa only [same.held, same.tier] using agreed.warm
  cold := by simpa only [same.tier, same.store] using agreed.cold
  heldModel := by simpa only [same.held] using agreed.heldModel
  storedModel := by simpa only [same.store] using agreed.storedModel

theorem FoundAt.sameAt (found : FoundAt v cid) (same : v.SameAt v' cid) :
    FoundAt v' cid := by
  simpa only [FoundAt, same.held, same.tier, same.store] using found

section

variable (agreed : Agreed cfg waiting v) {entry : HostPoolEntry τ} {snapshot : StoredSnapshot τ}

include agreed

/-- A step on one conversation: only that conversation has to be looked at. -/
theorem Agreed.step (frame : ∀ other, other ≠ cid → v.SameAt v' other) (own : AgreedAt cfg v' cid)
    (found : FoundAt v' cid) (fewer : ∀ other, other ≠ cid → other ∈ waiting → other ∈ waiting') :
    Agreed cfg waiting' v' := by
  constructor
  · intro other
    by_cases same : other = cid
    · exact same ▸ own
    · exact (agreed.1 other).sameAt (frame other same)
  · intro other notWaiting
    by_cases same : other = cid
    · exact same ▸ found
    · exact (agreed.2 other (fun isWaiting => notWaiting (fewer other same isWaiting))).sameAt
        (frame other same)

theorem Agreed.warm (model : cfg.modelMismatch entry.modelName = false) (cid : String)
    (fewer : ∀ other, other ≠ cid → other ∈ waiting → other ∈ waiting') :
    Agreed cfg waiting' (v.warm cid entry) := by
  apply agreed.step (fun other different => TierView.sameAt_warm different entry) _ _ fewer
  · refine ⟨by simp, by simp, by simp, ?_, (agreed.1 cid).storedModel⟩
    intro held isHeld
    rw [TierView.warm_held, if_pos rfl] at isHeld
    cases isHeld
    exact model
  · intro turn stored
    simp

theorem Agreed.cold (registered : v.tier cid ≠ none) {key : SnapshotKey}
    (owned : key.conversationId = cid)
    (model : cfg.modelMismatch (some snapshot.metadata.modelName) = false) :
    Agreed cfg waiting (v.cold cid key snapshot) := by
  have isCold : (v.cold cid key snapshot).tier cid = some .cold := by
    simp [TierView.cold, registered]
  apply agreed.step (fun other different => TierView.sameAt_cold different owned snapshot) _ _
    (fun _ _ => id)
  · refine ⟨?_, ?_, ?_, (agreed.1 cid).heldModel, ?_⟩
    · intro _
      rw [isCold]
      simp
    · intro isWarm
      cases isCold.symm.trans isWarm
    · intro _
      refine ⟨key.selector, ?_⟩
      subst owned
      simp [TierView.cold]
    · intro turn stored isStored
      simp only [TierView.cold, Function.update_apply] at isStored
      split at isStored
      · cases isStored
        exact model
      · exact (agreed.1 cid).storedModel turn stored isStored
  · exact fun _ _ => .inr isCold

theorem Agreed.demote (isHeld : v.held cid ≠ none)
    (model : cfg.modelMismatch (some snapshot.metadata.modelName) = false) :
    Agreed cfg waiting (v.demote cid snapshot) := by
  have registered := (agreed.1 cid).registered isHeld
  have isCold : (v.demote cid snapshot).tier cid = some .cold := by
    simp [registered]
  have own := (agreed.cold registered
    (show (SnapshotKey.mk cid (.turn snapshot.metadata.turnNumber)).conversationId =
      cid from rfl) model).1 cid
  apply agreed.step (fun other different => TierView.sameAt_demote different snapshot) _ _
    (fun _ _ => id)
  · refine ⟨by simp, ?_, own.cold, by simp, own.storedModel⟩
    intro isWarm
    cases isCold.symm.trans isWarm
  · exact fun _ _ => .inr isCold

theorem Agreed.archive (cid : String) :
    Agreed cfg waiting (v.archive cid) := by
  have own := agreed.1 cid
  apply agreed.step (fun other different => TierView.sameAt_archive different) _ _ (fun _ _ => id)
  · refine ⟨?_, ?_, ?_, own.heldModel, by simp⟩
    · intro isHeld
      simp [own.registered isHeld]
    · intro isWarm
      by_cases registered : v.tier cid = none
      · simp [registered] at isWarm
      · simp [registered] at isWarm
    · intro isCold
      by_cases registered : v.tier cid = none
      · simp [registered] at isCold
      · simp [registered] at isCold
  · intro turn stored
    simp at stored

theorem Agreed.move {target : ConversationTier} (warm : target = .warm → v.held cid ≠ none)
    (cold : target = .cold → ∃ selector, (v.store ⟨cid, selector⟩).isSome = true)
    (found : target ≠ .cold → v.held cid ≠ none ∨
      ∀ turn, (v.store ⟨cid, .turn turn⟩).isSome = false) :
    Agreed cfg waiting (v.move cid target) := by
  by_cases registered : v.tier cid = none
  · simpa [TierView.move, registered] using agreed
  have own := agreed.1 cid
  have isTarget : (v.move cid target).tier cid = some target := by
    simp [registered]
  apply agreed.step (fun other different => TierView.sameAt_move different target) _ _
    (fun _ _ => id)
  · refine ⟨?_, ?_, ?_, own.heldModel, own.storedModel⟩
    · intro _
      rw [isTarget]
      simp
    · intro isWarm
      exact warm (Option.some.inj (isTarget.symm.trans isWarm))
    · intro isCold
      exact cold (Option.some.inj (isTarget.symm.trans isCold))
  intro turn stored
  by_cases isCold : target = .cold
  · right
    rw [isTarget, isCold]
  · left
    rcases found isCold with isHeld | nothing
    · exact isHeld
    · rw [TierView.move_store, nothing] at stored
      cases stored

end

end Agreed

/-! ### One call -/

section Calls

variable {cfg : TierConfig} {waiting : List String} {s : TierState τ} {cid : String}
  {entry : HostPoolEntry τ} {snapshot : StoredSnapshot τ} {disk : FileSystem (Content τ)}

def AgreedIn (cfg : TierConfig) (waiting : List String) (s : TierState τ) : Prop :=
  ∃ v, Views cfg s v ∧ Agreed cfg waiting v

theorem AgreedIn.saveToWarmTier (agreed : AgreedIn cfg waiting s)
    (orderly : (validateStateTensors entry.convStates entry.temporalStates none
      false).isValid = true → s.hostPool.HasRoom cfg.limits entry.memoryBytes ∧
        cfg.modelMismatch entry.modelName = false) (policy : ValidationPolicy) (now : Nat) :
    AgreedIn cfg waiting (saveToWarmTier cfg cid entry policy now s).2 := by
  by_cases valid : (validateStateTensors entry.convStates entry.temporalStates none
      false).isValid = true
  · obtain ⟨v, views, agrees⟩ := agreed
    obtain ⟨room, model⟩ := orderly valid
    obtain ⟨s', saved, views'⟩ :=
      views.saveToWarmTier_of_hasRoom valid room cid policy now
    rw [saved]
    exact ⟨_, views', agrees.warm model cid (fun _ _ => id)⟩
  · obtain ⟨answer, refused, -⟩ := Views.saveToWarmTier_of_invalid (by simpa using valid) cfg
      cid policy now s
    rw [refused]
    exact agreed

omit [Torch τ] in
theorem Agreed.promote {v : TierView τ} (agrees : Agreed cfg waiting v)
    (model : cfg.modelMismatch (some snapshot.metadata.modelName) = false) :
    Agreed cfg waiting (v.warm cid (promoted snapshot)) := by
  have model' : cfg.modelMismatch (promoted snapshot).modelName = false := model
  exact agrees.warm model' cid (fun _ _ => id)

section

variable (agreed : AgreedIn cfg waiting s)

include agreed

theorem AgreedIn.demoteToColdTier (names : NamesModel cfg s cid) (now : Nat) :
    AgreedIn cfg waiting (demoteToColdTier cfg cid now s).2 := by
  obtain ⟨v, views, agrees⟩ := agreed
  obtain ⟨v', views', rfl | ⟨entry, isHeld, rfl⟩⟩ := views.demoteToColdTier_effect cid now
  · exact ⟨v', views', agrees⟩
  · have model := names entry ((views.held _).trans isHeld)
    exact ⟨_, views', agrees.demote (by simp [isHeld]) model⟩

theorem AgreedIn.namesModel {other : String}
    (names : NamesModel cfg s other) (cid : String) (now : Nat) :
    NamesModel cfg (Tier.demoteToColdTier cfg cid now s).2 other := by
  obtain ⟨v, views, -⟩ := agreed
  intro entry found
  apply names entry
  rw [views.held]
  obtain ⟨v', views', rfl | ⟨held, -, rfl⟩⟩ := views.demoteToColdTier_effect cid now
  · rw [views'.held] at found
    exact found
  · rw [views'.held, TierView.demote_held] at found
    split at found
    · cases found
    · exact found

theorem AgreedIn.demoteEach (now : Nat) (conversationIds : List String)
    (names : ∀ cid ∈ conversationIds, NamesModel cfg s cid) :
    AgreedIn cfg waiting (demoteEach cfg now conversationIds s).2 := by
  have ready : AgreedIn cfg waiting (Tier.demoteEach cfg now conversationIds s).2 ∧
      ∀ cid ∈ conversationIds,
        NamesModel cfg (Tier.demoteEach cfg now conversationIds s).2 cid := by
    apply demoteEach_preserves (P := fun s => AgreedIn cfg waiting s ∧
      ∀ cid ∈ conversationIds, NamesModel cfg s cid)
    · intro cid member s both
      exact ⟨both.1.demoteToColdTier (both.2 cid member) now,
        fun other isOther => both.1.namesModel (both.2 other isOther) cid now⟩
    · exact ⟨agreed, names⟩
  exact ready.1

theorem AgreedIn.archiveEach (conversationIds : List String) :
    AgreedIn cfg waiting (archiveEach cfg conversationIds s).2 := by
  apply archiveEach_preserves (P := AgreedIn cfg waiting)
  · intro cid _ s ⟨v, views, agrees⟩
    obtain ⟨v', views', rfl | rfl⟩ := views.archive_effect cid
    · exact ⟨v', views', agrees⟩
    · exact ⟨_, views', agrees.archive cid⟩
  · exact agreed

theorem AgreedIn.tierCall {now : Nat} (call : TierCall τ)
    (orderly : call.Orderly cfg now s) : AgreedIn cfg waiting (call.run cfg now s) := by
  cases call with
  | saveToWarm cid entry policy => exact agreed.saveToWarmTier orderly policy now
  | restoreFromWarm cid =>
    obtain ⟨v, views, agrees⟩ := agreed
    exact ⟨v, views.restoreFromWarmTier cid now, agrees⟩
  | restoreFromCold cid turnNumber =>
    obtain ⟨v, views, agrees⟩ := agreed
    exact ⟨v, views.restoreFromColdTier_effect cid turnNumber now, agrees⟩
  | restore cid turnNumber =>
    obtain ⟨v, views, agrees⟩ := agreed
    obtain ⟨v', views', rfl | ⟨snapshot, -, -, model, rfl⟩⟩ :=
      views.restoreConversation_effect orderly
    · exact ⟨v', views', agrees⟩
    · exact ⟨_, views', agrees.promote model⟩
  | loadReference current reference =>
    obtain ⟨v, views, agrees⟩ := agreed
    obtain ⟨v', views', rfl | ⟨snapshot, -, -, model, rfl⟩⟩ :=
      views.loadCrossSessionReference_effect current orderly
    · exact ⟨v', views', agrees⟩
    · exact ⟨_, views', agrees.promote model⟩
  | demote cid => exact agreed.demoteToColdTier orderly now
  | cleanup => exact (agreed.demoteEach now _ orderly).archiveEach _

theorem AgreedIn.saveToColdTier (owned : snapshot.metadata.conversationId = cid)
    (registered : s.tracker.getTier cid ≠ none)
    (model : cfg.modelMismatch (some snapshot.metadata.modelName) = false) :
    AgreedIn cfg waiting (saveToColdTier cfg cid snapshot s).2 := by
  obtain ⟨v, views, agrees⟩ := agreed
  obtain ⟨v', views', rfl | ⟨key, named, rfl⟩⟩ := views.saveToColdTier_effect cid snapshot
  · exact ⟨v', views', agrees⟩
  · have keyOwned : key.conversationId = cid := by
      obtain ⟨selector, -, rfl⟩ := Option.map_eq_some_iff.mp named
      exact owned
    rw [views.tier] at registered
    exact ⟨_, views', agrees.cold registered keyOwned model⟩

theorem AgreedIn.tierTransition {targetTier : String}
    (supported : ∀ target, ConversationTier.parse targetTier = some target →
      Supported cfg s cid target) :
    AgreedIn cfg waiting (tierTransition cid targetTier s).2 := by
  unfold Tier.tierTransition
  split
  · exact agreed
  split
  · exact agreed
  · next target parsed =>
    obtain ⟨v, views, agrees⟩ := agreed
    have moved : AgreedIn cfg waiting
        { s with tracker := (s.tracker.transitionTier cid target).2 } := by
      have support := supported target parsed
      refine ⟨_, views.transitionTier cid target, agrees.move ?_ ?_ ?_⟩
      · rintro rfl
        exact views.hasState_iff.mp support
      · rintro rfl
        obtain ⟨selector, stored⟩ := support
        exact ⟨selector, views.hasSnapshot_iff.mp stored⟩
      · intro notCold
        have absent : (∀ turn, ¬ HasSnapshot cfg.baseDir s.disk ⟨cid, .turn turn⟩) →
            ∀ turn, (v.store ⟨cid, .turn turn⟩).isSome = false := by
          intro nothing turn
          simpa using views.hasSnapshot_iff.mpr.mt (nothing turn)
        -- what is on disk stays within reach only as `COLD`
        cases target with
        | warm => exact .inl (views.hasState_iff.mp support)
        | cold => exact absurd rfl notCold
        | active => exact support.imp views.hasState_iff.mp absent
        | archived => exact support.imp views.hasState_iff.mp absent
    generalize s.tracker.transitionTier cid target = result at moved
    obtain ⟨registered, tracker⟩ := result
    cases registered with
    | false => exact moved
    | true => exact moved

end

/-! ### The startup restore -/

theorem preload_snd {turn : Int} {metadata : MambaSnapshotMetadata} (now : Nat)
    (latest : getLatestSnapshot cfg.baseDir cid s.disk =
      (.ok (some (turn, metadata)), disk)) :
    (preload cfg cid now s).2 =
      (restoreConversation cfg cid (some turn) now { s with disk }).2 := by
  rw [preload, latest]
  simp only
  split
  · next restored => rw [restored]
  · next restored => rw [restored]

theorem AgreedIn.preload {rest : List String} {now : Nat} (agreed : AgreedIn cfg (cid :: rest) s)
    (fits : ∀ turn metadata, (getLatestSnapshot cfg.baseDir cid s.disk).1 =
      .ok (some (turn, metadata)) → PromotionFits cfg now s cid (some turn)) :
    AgreedIn cfg rest (preload cfg cid now s).2 := by
  obtain ⟨v, views, agrees⟩ := agreed
  have fewer : ∀ other, other ≠ cid → other ∈ cid :: rest → other ∈ rest := by
    intro other different member
    simpa [different] using member
  have settled : FoundAt v cid → Agreed cfg rest v := by
    intro found
    exact agrees.step (fun _ _ => ⟨rfl, rfl, fun _ => rfl⟩) (agrees.1 cid) found fewer
  have opens := getLatestSnapshot_opened cfg.baseDir cid s.disk
  rcases views.onDisk.getLatestSnapshot_cases cid with
    ⟨turn, snapshot, disk, isLatest, latest⟩ | ⟨nothing, disk, latest⟩
  · rw [latest] at opens
    have views₁ := views.opened opens
    -- the search for the latest turn has only opened a directory
    have fits₁ : PromotionFits cfg now { s with disk } cid (some turn) := by
      intro absent asked promoted found
      apply fits turn snapshot.metadata (by rw [latest]) absent asked
      rw [views₁.restoreFromColdTier_eq_ok_iff] at found
      exact views.restoreFromColdTier_eq_ok_iff.mpr found
    rw [preload_snd now latest]
    rcases views₁.restoreConversation_cases fits₁ with
      ⟨entry, s', isHeld, restored, views'⟩ |
      ⟨found, s', -, -, model, restored, views'⟩ |
      ⟨answer, s', -, -, -, differs⟩
    · rw [restored]
      exact ⟨v, views', settled (fun _ _ => .inl (by simp [isHeld]))⟩
    · rw [restored]
      have model' : cfg.modelMismatch (promoted found).modelName = false := model
      exact ⟨_, views', agrees.warm model' cid fewer⟩
    · have agreesModel := (agrees.1 cid).storedModel turn snapshot isLatest.1
      cases agreesModel.symm.trans (differs (.inr (by simp)) snapshot isLatest.1)
  · have found : FoundAt v cid := by
      intro turn stored
      rw [nothing] at stored
      cases stored
    rcases latest with latest | ⟨error, latest⟩
    · rw [latest] at opens
      rw [Tier.preload, latest]
      exact ⟨v, views.opened opens, settled found⟩
    · rw [latest] at opens
      rw [Tier.preload, latest]
      exact ⟨v, views.opened opens, settled found⟩

theorem AgreedIn.preloadEach {now : Nat} (conversationIds : List String)
    (agreed : AgreedIn cfg conversationIds s) (fits : PreloadsFit cfg now conversationIds s) :
    AgreedIn cfg [] (preloadEach cfg now conversationIds s).2 := by
  induction conversationIds generalizing s with
  | nil => exact agreed
  | cons cid rest ih => exact ih (agreed.preload fits.1) fits.2

/-- A further startup restore finds every conversation already. -/
theorem AgreedIn.waits (agreed : AgreedIn cfg [] s) (waiting : List String) :
    AgreedIn cfg waiting s := by
  obtain ⟨v, views, agrees⟩ := agreed
  exact ⟨v, views, agrees.1, fun cid _ => agrees.2 cid (by simp)⟩

theorem AgreedIn.systemCall (agreed : AgreedIn cfg [] s) (event : Nat × SystemCall τ)
    (orderly : Orderly cfg s event) : AgreedIn cfg [] (event.2.run cfg event.1 s) := by
  obtain ⟨now, call⟩ := event
  cases call with
  | manager call => exact agreed.tierCall call orderly
  | saveToCold cid snapshot =>
    obtain ⟨owned, registered, model⟩ := orderly
    exact agreed.saveToColdTier owned registered model
  | startup => exact AgreedIn.preloadEach _ (agreed.waits _) orderly
  | transition cid targetTier => exact agreed.tierTransition orderly

/-! ### What the agreement says -/

theorem AgreedIn.restores (agreed : AgreedIn cfg [] s) (available : Available cfg s cid)
    (now : Nat) : ∃ restored,
      (Tier.restoreConversation cfg cid none now s).1 = .ok (some restored) := by
  obtain ⟨v, views, eachAgrees, found⟩ := agreed
  cases isHeld : v.held cid with
  | some entry =>
    obtain ⟨s', restored, -⟩ := views.restoreConversation_of_held isHeld none now
    rw [(eachAgrees cid).heldModel entry isHeld] at restored
    exact ⟨entry.restored, by rw [restored]; rfl⟩
  | none =>
    obtain ⟨turn, stored⟩ : ∃ turn, (v.store ⟨cid, .turn turn⟩).isSome = true := by
      rcases available with inPool | ⟨turn, snapshot, loaded⟩
      · exact absurd isHeld (views.hasState_iff.mp inPool)
      · rw [views.onDisk.load_eq_ok_iff rfl] at loaded
        exact ⟨turn, by rw [loaded]; rfl⟩
    have isCold : v.tier cid = some .cold := by
      rcases found cid (by simp) turn stored with inPool | isCold
      · exact absurd isHeld inPool
      · exact isCold
    rw [views.restoreConversation_of_not_held isHeld, if_pos (.inl isCold)]
    rcases views.restoreAndPromote cid none now with
      ⟨snapshot, s₁, -, -, -, -, answered⟩ | ⟨answer, s', -, -, -, differs⟩
    · exact ⟨(promoted snapshot).restored, by rw [answered]⟩
    rcases views.onDisk.getLatestSnapshot_cases cid with
      ⟨number, snapshot, disk, isLatest, -⟩ | ⟨nothing, -⟩
    · have model := (eachAgrees cid).storedModel number snapshot isLatest.1
      cases model.symm.trans (differs snapshot ⟨number, isLatest⟩)
    · rw [nothing] at stored
      cases stored

theorem AgreedIn.agrees (agreed : AgreedIn cfg [] s) : Agrees cfg s where
  warm := by
    intro cid isWarm
    obtain ⟨v, views, eachAgrees, -⟩ := agreed
    rw [views.tier] at isWarm
    exact views.hasState_iff.mpr ((eachAgrees cid).warm isWarm)
  cold := by
    intro cid isCold
    obtain ⟨v, views, eachAgrees, -⟩ := agreed
    rw [views.tier] at isCold
    obtain ⟨selector, stored⟩ := (eachAgrees cid).cold isCold
    exact ⟨selector, views.hasSnapshot_iff.mpr stored⟩
  restores := fun _ available now => agreed.restores available now

theorem agreedIn_fresh {store : SnapshotKey → Option (StoredSnapshot τ)}
    (onDisk : OnDisk cfg.baseDir disk store) (plain : PlainIds cfg.baseDir disk)
    (models : ∀ cid turn snapshot, store ⟨cid, .turn turn⟩ = some snapshot →
      cfg.modelMismatch (some snapshot.metadata.modelName) = false) :
    AgreedIn cfg (listConversations cfg.baseDir disk) ({ disk } : TierState τ) := by
  refine ⟨⟨fun _ => none, fun _ => none, store⟩, ⟨fun _ => rfl, fun _ => rfl, onDisk⟩, ?_, ?_⟩
  · intro cid
    exact ⟨by simp, by simp, by simp, by simp, models cid⟩
  · intro cid notListed turn stored
    have listed := (onDisk.tidy.mem_listConversations plain).mpr (onDisk.conversationDir_mem stored)
    exact absurd listed notListed

end Calls

/-! ### Runs -/

section Runs

/-- After a startup restore with room for every conversation on disk, the tracker agrees
    with the storage along every run of orderly calls. -/
theorem tracker_agrees_with_storage (cfg : TierConfig) (disk : FileSystem (Content τ))
    (store : SnapshotKey → Option (StoredSnapshot τ)) (onDisk : OnDisk cfg.baseDir disk store)
    (plain : PlainIds cfg.baseDir disk)
    (models : ∀ conversationId turn snapshot, store ⟨conversationId, .turn turn⟩ = some snapshot →
      cfg.modelMismatch (some snapshot.metadata.modelName) = false)
    (start : Nat) (fits : PreloadsFit cfg start (listConversations cfg.baseDir disk) { disk })
    (events : List (Nat × SystemCall τ)) (s : TierState τ)
    (orderly : Admissible (systemStep cfg) (Orderly cfg)
      (restoreLatestSnapshotsToWarmTier cfg start { disk }).2 events)
    (completed : Transition.run (systemStep cfg)
      (restoreLatestSnapshotsToWarmTier cfg start { disk }).2 events = .ok s) :
    Agrees cfg s := by
  have begins : AgreedIn cfg [] (restoreLatestSnapshotsToWarmTier cfg start { disk }).2 :=
    (agreedIn_fresh onDisk plain models).preloadEach _ fits
  have agreed : AgreedIn cfg [] s := run_invariant
    (fun s event s' agreed orderly stepped => by
      cases stepped
      exact agreed.systemCall event orderly)
    events _ s begins orderly completed
  exact agreed.agrees

theorem tracker_agrees_after_demotion :
    let cfg : TierConfig := { baseDir := ["store"], modelPath := some "m" }
    let events : List (Nat × SystemCall IntTensor) :=
      [(0, .manager (.saveToWarm "a" (sampleEntry 1 (some 1)) .raise)), (1, .startup),
        (2, .manager (.demote "a")), (3, .transition "a" "cold"),
        (4, .saveToCold "a" (demoted "a" 4 (sampleEntry 2 (some 2)).restored))]
    ∃ s, Transition.run (systemStep cfg) {} events = .ok s ∧
      s.tracker.getTier "a" = some .cold ∧ Agrees cfg s := by
  intro cfg events
  obtain ⟨s, completed, isCold⟩ : ∃ s, Transition.run (systemStep cfg) {} events = .ok s ∧
      s.tracker.getTier "a" = some .cold := by decide
  have orderly : Admissible (systemStep cfg) (Orderly cfg) {} events := by
    refine ⟨fun _ => by decide, trivial, ?_, ?_, ⟨rfl, by decide, by decide⟩, trivial⟩
    · intro entry found
      obtain rfl : sampleEntry 1 (some 1) = entry :=
        Option.some.inj (Eq.trans (by decide) found)
      decide
    · intro target parsed
      obtain rfl : .cold = target := Option.some.inj (Eq.trans (by decide) parsed)
      exact ⟨.turn 1, by decide⟩
  exact ⟨s, completed, isCold, tracker_agrees_with_storage cfg .empty _ .empty
    (by simp [PlainIds, FileSystem.empty]) nofun 0 trivial events s orderly completed⟩

/-- Three runs after which the records disagree: an eviction leaves a conversation `WARM`
    that the pool does not hold; the API archives a conversation that stays on disk; a save
    to disk for an unregistered conversation is not found. -/
theorem tracker_disagrees_with_storage :
    let small : TierConfig := { baseDir := ["store"], limits := { maxConversations := 1 } }
    let cfg : TierConfig := { baseDir := ["store"] }
    let save (conversationId : String) : Nat × SystemCall IntTensor :=
      (0, .manager (.saveToWarm conversationId (sampleEntry 1 (some 1)) .raise))
    (∃ s, Transition.run (systemStep small) {} [save "a", save "b"] = .ok s ∧
      s.tracker.getTier "a" = some .warm ∧ s.hostPool.hasState "a" = false ∧ ¬ Agrees small s) ∧
    ∀ events ∈ [[save "a", (1, .manager (.demote "a")), (2, .transition "a" "archived")],
        [(0, .saveToCold "a" (demoted "a" 0 (sampleEntry 1 (some 1)).restored))]],
      ∃ s, Transition.run (systemStep cfg) {} events = .ok s ∧
        (loadSnapshot cfg.baseDir "a" (some 1) none s.disk).1.toOption.isSome = true ∧
        (restoreConversation cfg "a" none 3 s).1.toOption.join = none ∧ ¬ Agrees cfg s := by
  intro small cfg save
  constructor
  · obtain ⟨s, completed, isWarm, evicted⟩ :
        ∃ s, Transition.run (systemStep small) {} [save "a", save "b"] = .ok s ∧
          s.tracker.getTier "a" = some .warm ∧ s.hostPool.hasState "a" = false := by decide
    refine ⟨s, completed, isWarm, evicted, ?_⟩
    intro agrees
    cases evicted.symm.trans (agrees.warm "a" isWarm)
  have unfound : ∀ events ∈ [[save "a", (1, .manager (.demote "a")),
        (2, .transition "a" "archived")],
      [(0, .saveToCold "a" (demoted "a" 0 (sampleEntry 1 (some 1)).restored))]],
      ∃ s, Transition.run (systemStep cfg) {} events = .ok s ∧
        (loadSnapshot cfg.baseDir "a" (some 1) none s.disk).1.toOption.isSome = true ∧
        (restoreConversation cfg "a" none 3 s).1.toOption.join = none := by decide +kernel
  intro events member
  obtain ⟨s, completed, loads, missed⟩ := unfound events member
  refine ⟨s, completed, loads, missed, ?_⟩
  intro agrees
  have available : Available cfg s "a" := by
    cases loaded : (loadSnapshot cfg.baseDir "a" (some 1) none s.disk).1 with
    | ok snapshot => exact .inr ⟨1, snapshot, loaded⟩
    | error error =>
      rw [loaded] at loads
      cases loads
  obtain ⟨restored, answered⟩ := agrees.restores "a" available 3
  rw [answered] at missed
  cases missed

end Runs

end Engram.Tier
