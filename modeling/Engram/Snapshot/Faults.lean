import Engram.Snapshot.Directory

/-!
# Saves that fail

A save over a stored snapshot that raises. Until the new state file is in place the old pair of
files is untouched; after that a failure of the metadata removes the only state file, and the old
metadata is left without a state (`failed_save_keeps_previous_iff`).
-/

namespace Engram.Snapshot

open Lib

/-- The step that fails is the write or the rename of the metadata. -/
def SaveFault.hitsMetadata : SaveFault → Bool
  | .stateWrite _ => false
  | .stateRename => false
  | .metadataWrite _ => true
  | .metadataRename => true

variable {τ : Type} {baseDir : Path} {fs : FileSystem (Content τ)} {key : SnapshotKey}
  {fault : SaveFault}

theorem saveState_early_fault (early : fault.hitsMetadata = false) (baseDir : Path)
    (key : SnapshotKey) (stateDict : OrderedDict String τ) (fs : FileSystem (Content τ)) :
    ∃ error fs', saveState (some fault) (key.file baseDir .state) stateDict fs =
        (.error error, fs') ∧
      ∀ kind, kind ≠ .stateTemp →
        fs'.read? (key.file baseDir kind) = fs.read? (key.file baseDir kind) := by
  have other : ∀ kind, kind ≠ FileKind.stateTemp →
      key.file baseDir kind ≠ key.file baseDir .stateTemp :=
    fun kind permanent => file_ne (.inr permanent)
  cases fault with
  | stateWrite torn =>
    refine ⟨_, _, rfl, ?_⟩
    intro kind permanent
    rw [pathWithSuffix_state, FileSystem.read?_unlink, if_neg (other kind permanent)]
    cases torn with
    | false => rfl
    | true => rw [if_pos rfl, FileSystem.read?_write, if_neg (other kind permanent)]
  | stateRename =>
    refine ⟨_, _, rfl, ?_⟩
    intro kind permanent
    rw [pathWithSuffix_state, FileSystem.read?_unlink, if_neg (other kind permanent),
      FileSystem.read?_write, if_neg (other kind permanent)]
  | metadataWrite torn => cases early
  | metadataRename => cases early

theorem saveMetadata_late_fault (late : fault.hitsMetadata = true) (baseDir : Path)
    (key : SnapshotKey) (stateDict : OrderedDict String τ) (metadata : MambaSnapshotMetadata)
    (fs : FileSystem (Content τ)) :
    ∃ fs₁, saveState (some fault) (key.file baseDir .state) stateDict fs = (.ok (), fs₁) ∧
      ∃ error fs₂, saveMetadata (some fault) (key.file baseDir .metadata)
          (key.file baseDir .state) metadata fs₁ = (.error error, fs₂) ∧
        fs₂.read? (key.file baseDir .state) = none := by
  cases fault with
  | stateWrite torn => cases late
  | stateRename => cases late
  | metadataWrite torn =>
    refine ⟨_, rfl, _, _, rfl, ?_⟩
    rw [FileSystem.read?_unlink, if_pos rfl]
  | metadataRename =>
    refine ⟨_, rfl, _, _, rfl, ?_⟩
    rw [FileSystem.read?_unlink, if_pos rfl]

variable [Torch τ] {snapshot : StoredSnapshot τ}

theorem loadSnapshot_ne_ok_of_no_state {cid : String} {turnNumber : Option Int}
    {branchName : Option String}
    (named : keyOf cid turnNumber branchName = some key) (accepted : key.Accepted)
    (noState : fs.read? (key.file baseDir .state) = none) (snapshot : StoredSnapshot τ) :
    (loadSnapshot baseDir cid turnNumber branchName fs).1 ≠ .ok snapshot := by
  obtain ⟨selector, selected, rfl⟩ := Option.map_eq_some_iff.mp named
  obtain ⟨fs', opened, frame⟩ := getSnapshotPaths_ok baseDir selected accepted fs
  unfold loadSnapshot
  rw [opened]
  simp only [frame, noState]
  intro loaded
  split at loaded
  · cases loaded
  · cases loaded
  · next found => cases found

theorem Represents.of_early_fault {stored : Option (StoredSnapshot τ)}
    (represents : Represents baseDir fs key stored) (storable : snapshot.Storable)
    (named : snapshot.key = some key) (accepted : key.Accepted)
    (early : fault.hitsMetadata = false) :
    Represents baseDir (saveSnapshot baseDir (some fault) snapshot.convStates
      snapshot.temporalStates snapshot.metadata fs).2 key stored := by
  have opens : Opened baseDir key.conversationId fs (key.makeDirs baseDir fs) :=
    .makeDirs accepted fs
  obtain ⟨error, fs', raised, kept⟩ := saveState_early_fault early baseDir key
    (stateDictOf snapshot.convStates snapshot.temporalStates) (key.makeDirs baseDir fs)
  rw [saveSnapshot_eq (some fault) storable named accepted, raised]
  refine ⟨?_, ?_⟩
  · rw [kept .metadata (by decide), opens.read?, represents.metadata]
  · rw [kept .state (by decide), opens.read?, represents.state]

theorem saveSnapshot_late_fault (storable : snapshot.Storable) (named : snapshot.key = some key)
    (accepted : key.Accepted) (late : fault.hitsMetadata = true) :
    (saveSnapshot baseDir (some fault) snapshot.convStates snapshot.temporalStates
      snapshot.metadata fs).2.read? (key.file baseDir .state) = none := by
  obtain ⟨fs₁, replaced, error, fs₂, raised, noState⟩ := saveMetadata_late_fault late baseDir key
    (stateDictOf snapshot.convStates snapshot.temporalStates) snapshot.metadata
    (key.makeDirs baseDir fs)
  rw [saveSnapshot_eq (some fault) storable named accepted, replaced]
  simp only [raised, noState]

/-- A save returns exactly if the disk does not fail and nothing is refused. -/
theorem saveSnapshot_isOk_iff (baseDir : Path) (fault : Option SaveFault)
    (snapshot : StoredSnapshot τ) (fs : FileSystem (Content τ)) :
    (saveSnapshot baseDir fault snapshot.convStates snapshot.temporalStates snapshot.metadata
        fs).1.isOk = true ↔
      fault = none ∧ snapshot.Storable ∧ ∃ key, snapshot.key = some key ∧ key.Accepted := by
  rcases saveSnapshot_cases baseDir fault snapshot fs with
    ⟨storable, key, named, accepted⟩ | ⟨error, fs', refused, -⟩
  · cases fault with
    | none =>
      rw [saveSnapshot_ok baseDir storable named accepted]
      simp only [true_and]
      exact iff_of_true rfl ⟨storable, key, named, accepted⟩
    | some fault =>
      rw [saveSnapshot_eq (some fault) storable named accepted]
      cases fault <;> simp [saveState, saveMetadata, Except.toBool]
  · rw [refused]
    refine iff_of_false (by simp [Except.toBool]) ?_
    rintro ⟨rfl, storable, key, named, accepted⟩
    cases (saveSnapshot_ok baseDir storable named accepted fs).symm.trans
      (congrArg Prod.fst refused)

/-- After a save that raised over a stored snapshot, a load still returns that snapshot
    exactly if the failure was not one of the metadata of a snapshot that had passed
    validation. -/
theorem failed_save_keeps_previous_iff {previous snapshot : StoredSnapshot τ}
    (accepted : key.Accepted) (stored : Represents baseDir fs key (some previous))
    (wasStorable : previous.Storable) (named : snapshot.key = some key) {fault : Option SaveFault}
    {error : StoreError}
    (raised : (saveSnapshot baseDir fault snapshot.convStates snapshot.temporalStates
      snapshot.metadata fs).1 = .error error) {conversationId : String} {turnNumber : Option Int}
    {branchName : Option String} (loads : keyOf conversationId turnNumber branchName = some key) :
    (loadSnapshot baseDir conversationId turnNumber branchName
        (saveSnapshot baseDir fault snapshot.convStates snapshot.temporalStates
          snapshot.metadata fs).2).1 = .ok previous ↔
      ¬ (snapshot.Storable ∧ fault.any SaveFault.hitsMetadata = true) := by
  -- a load finds what the files represent
  have answer : ∀ fs', Represents baseDir fs' key (some previous) →
      (loadSnapshot baseDir conversationId turnNumber branchName fs').1 = .ok previous := by
    intro fs' represents
    rw [loadSnapshot_answer loads accepted represents (by rintro _ ⟨⟩; exact wasStorable)]
    rfl
  by_cases storable : snapshot.Storable
  · cases fault with
    | none =>
      rw [saveSnapshot_eq none storable named accepted] at raised
      cases raised
    | some fault =>
      cases late : fault.hitsMetadata with
      | false =>
        have kept := stored.of_early_fault storable named accepted late
        simp [answer _ kept, late]
      | true =>
        have noState : (saveSnapshot baseDir (some fault) snapshot.convStates
            snapshot.temporalStates snapshot.metadata fs).2.read? (key.file baseDir .state) =
              none :=
          saveSnapshot_late_fault storable named accepted late
        have lost := loadSnapshot_ne_ok_of_no_state loads accepted noState previous
        simp [lost, storable, late]
  · -- refused before the first write
    rcases saveSnapshot_cases baseDir fault snapshot fs with
      ⟨isStorable, -⟩ | ⟨refusal, fs', refused, opens⟩
    · exact absurd isStorable storable
    · rw [refused]
      simp [answer fs' (stored.frame opens.read?), storable]

/-- The disk fails on the new state file: the old snapshot loads. -/
theorem failed_save_keeps_previous_on_state_rename :
    let tensor : IntTensor := ⟨.float32, [1], [5]⟩
    let metadata : MambaSnapshotMetadata :=
      { conversationId := "c", turnNumber := 1, timestamp := 0, tokenCount := 2, modelName := "m"
        mambaPoolIdx := 1, reqPoolIdx := 1, layerConfig := [("num_layers", .number 1)] }
    let fs := runCalls ["store"] [.save [tensor] tensor metadata]
    (loadSnapshot ["store"] "c" (some 1) none
      (saveSnapshot ["store"] (some .stateRename) [tensor, tensor] tensor
        { metadata with tokenCount := 3 } fs).2).1 =
      .ok { convStates := [tensor], temporalStates := tensor, metadata } := by
  intro tensor metadata fs
  have sound : Sound false tensor := by
    decide
  have storable : StoredSnapshot.Storable
      { convStates := [tensor], temporalStates := tensor, metadata := metadata } := by
    refine ⟨List.cons_ne_nil _ _, ?_⟩
    rw [validateStateTensors_isValid_iff]
    exact ⟨List.cons_ne_nil _ _, by simpa using sound, sound⟩
  have accepted : SnapshotKey.Accepted ⟨"c", .turn 1⟩ := by
    decide
  have refines := runCalls_refines ["store"] [.save [tensor] tensor metadata] (by
    intro call member
    obtain rfl : call = .save [tensor] tensor metadata := by
      simpa using member
    exact ⟨⟨⟨"c", .turn 1⟩, rfl, accepted⟩, storable⟩)
  have stored : Represents ["store"] fs ⟨"c", .turn 1⟩
      (some { convStates := [tensor], temporalStates := tensor, metadata }) :=
    refines.represents ⟨"c", .turn 1⟩
  let next : StoredSnapshot IntTensor :=
    { convStates := [tensor, tensor], temporalStates := tensor,
      metadata := { metadata with tokenCount := 3 } }
  have named : next.key = some ⟨"c", .turn 1⟩ := rfl
  have raised : (saveSnapshot ["store"] (some .stateRename) next.convStates next.temporalStates
      next.metadata fs).1 = .error (.ioError "Failed to save state") := by
    decide
  exact (failed_save_keeps_previous_iff accepted stored storable named raised rfl).mpr
    (fun late => absurd late.2 (by decide))

/-- The disk fails on the new metadata: the old snapshot is gone. -/
theorem failed_save_destroys_previous :
    let tensor : IntTensor := ⟨.float32, [1], [5]⟩
    let metadata : MambaSnapshotMetadata :=
      { conversationId := "c", turnNumber := 1, timestamp := 0, tokenCount := 2, modelName := "m"
        mambaPoolIdx := 1, reqPoolIdx := 1, layerConfig := [("num_layers", .number 1)] }
    let fs := runCalls ["store"] [.save [tensor] tensor metadata]
    let failed := saveSnapshot ["store"] (some (.metadataWrite false)) [tensor, tensor] tensor
      { metadata with tokenCount := 3 } fs
    (loadSnapshot ["store"] "c" (some 1) none fs).1 =
        .ok { convStates := [tensor], temporalStates := tensor, metadata } ∧
      failed.1 = .error (.ioError "Failed to save metadata") ∧
      (loadSnapshot ["store"] "c" (some 1) none failed.2).1 =
        .error (.fileNotFoundError
          "State not found: /store/conversation_c/turn_1_state.safetensors") := by
  decide

end Engram.Snapshot
