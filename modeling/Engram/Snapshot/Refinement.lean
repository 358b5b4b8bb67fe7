import Engram.Snapshot.Store

/-!
# The store is a finite map

The abstract store takes a key (a conversation with a turn or a branch) to the snapshot saved last
under it. On disk, the metadata and state file of a key hold its snapshot, or are both absent.
Since no two keys share a path, every call changes the map at its own key only
(`disk_store_is_finite_map`).
-/

namespace Engram.Snapshot

open Lib List Function

variable {τ : Type} {cid : String} {turnNumber : Option Int} {branchName : Option String}

/-! ### Encoding and decoding the tensors -/

theorem convLayerKey_injective {i j : Nat} (same : convLayerKey i = convLayerKey j) : i = j :=
  Nat.repr_injective ((String.append_right_inj _).mp same)

theorem convLayerKey_ne_temporal (i : Nat) : convLayerKey i ≠ "temporal" := by
  intro same
  have heads := congrArg (fun name => name.toList.head?) same
  simp [convLayerKey] at heads

section

variable (convStates : List τ)

include convStates

theorem lookup_addConvStates (i j : Nat) (stateDict : OrderedDict String τ) :
    (addConvStates i convStates stateDict).lookup (convLayerKey j) =
      if i ≤ j then (convStates[j - i]?).or (stateDict.lookup (convLayerKey j))
      else stateDict.lookup (convLayerKey j) := by
  induction convStates generalizing i stateDict with
  | nil => simp [addConvStates]
  | cons convState convStates ih =>
    rw [addConvStates, ih, OrderedDict.lookup_insert]
    rcases Nat.lt_trichotomy i j with below | rfl | above
    · have distinct : convLayerKey j ≠ convLayerKey i := by
        intro same
        have := convLayerKey_injective same
        omega
      have shift : j - i = (j - (i + 1)) + 1 := by
        omega
      rw [if_pos (by omega), if_neg distinct, if_pos (by omega), shift,
        getElem?_cons_succ]
    · simp
    · have distinct : convLayerKey j ≠ convLayerKey i := by
        intro same
        have := convLayerKey_injective same
        omega
      rw [if_neg (by omega), if_neg distinct, if_neg (by omega)]

theorem lookup_temporal_addConvStates (i : Nat) (stateDict : OrderedDict String τ) :
    (addConvStates i convStates stateDict).lookup "temporal" = stateDict.lookup "temporal" := by
  induction convStates generalizing i stateDict with
  | nil => rfl
  | cons convState convStates ih =>
    rw [addConvStates, ih, OrderedDict.lookup_insert, if_neg (convLayerKey_ne_temporal i).symm]

theorem size_addConvStates (i : Nat) (stateDict : OrderedDict String τ)
    (fresh : ∀ j, i ≤ j → convLayerKey j ∉ stateDict) :
    (addConvStates i convStates stateDict).size = stateDict.size + convStates.length := by
  induction convStates generalizing i stateDict with
  | nil => rfl
  | cons convState convStates ih =>
    rw [addConvStates, ih]
    · rw [OrderedDict.size_insert_of_not_mem (fresh i (Nat.le_refl i)), length_cons]
      omega
    · intro j later member
      rcases OrderedDict.mem_insert.mp member with same | old
      · have := convLayerKey_injective same
        omega
      · exact fresh j (by omega) old

theorem lookup_stateDictOf (temporalStates : τ) (i : Nat) :
    (stateDictOf convStates temporalStates).lookup (convLayerKey i) = convStates[i]? := by
  rw [stateDictOf, lookup_addConvStates, OrderedDict.lookup_insert,
    if_neg (convLayerKey_ne_temporal i)]
  simp

theorem lookup_temporal_stateDictOf (temporalStates : τ) :
    (stateDictOf convStates temporalStates).lookup "temporal" = some temporalStates := by
  rw [stateDictOf, lookup_temporal_addConvStates, OrderedDict.lookup_insert, if_pos rfl]

theorem size_stateDictOf (temporalStates : τ) :
    (stateDictOf convStates temporalStates).size = 1 + convStates.length := by
  rw [stateDictOf, size_addConvStates]
  · rfl
  · intro j _ member
    rcases OrderedDict.mem_insert.mp member with same | old
    · exact convLayerKey_ne_temporal j same
    · cases old

end

theorem collectConvStates_eq_drop {stateDict : OrderedDict String τ} {convStates : List τ}
    (stored : ∀ i, stateDict.lookup (convLayerKey i) = convStates[i]?) (fuel i : Nat)
    (enough : convStates.length ≤ fuel + i) :
    collectConvStates stateDict fuel i = convStates.drop i := by
  induction fuel generalizing i with
  | zero =>
    rw [drop_eq_nil_of_le (by omega)]
    rfl
  | succ fuel ih =>
    rw [collectConvStates, stored i]
    cases found : convStates[i]? with
    | none => rw [drop_eq_nil_of_le (getElem?_eq_none_iff.mp found)]
    | some convState =>
      obtain ⟨bound, rfl⟩ := List.getElem?_eq_some_iff.mp found
      rw [List.drop_eq_getElem_cons bound, ih (i + 1) (by omega)]

theorem collectConvStates_stateDictOf (convStates : List τ) (temporalStates : τ) :
    collectConvStates (stateDictOf convStates temporalStates)
      (stateDictOf convStates temporalStates).size 0 = convStates := by
  rw [collectConvStates_eq_drop (lookup_stateDictOf convStates temporalStates) _ 0
    (by rw [size_stateDictOf]; omega), drop_zero]

/-! ### The abstract store -/

/-- One call of the snapshot manager. -/
inductive StoreCall (τ : Type) where
  | save (convStates : List τ) (temporalStates : τ) (metadata : MambaSnapshotMetadata)
  | load (conversationId : String) (turnNumber : Option Int) (branchName : Option String)
  | delete (conversationId : String) (turnNumber : Option Int) (branchName : Option String)

def keyOf (conversationId : String) (turnNumber : Option Int) (branchName : Option String) :
    Option SnapshotKey :=
  (selectorOf turnNumber branchName).map (SnapshotKey.mk conversationId)

def StoreCall.key : StoreCall τ → Option SnapshotKey
  | .save _ _ metadata =>
    keyOf metadata.conversationId (some metadata.turnNumber) metadata.branchName
  | .load conversationId turnNumber branchName => keyOf conversationId turnNumber branchName
  | .delete conversationId turnNumber branchName => keyOf conversationId turnNumber branchName

def StoreCall.apply (key : SnapshotKey) (current : Option (StoredSnapshot τ)) :
    StoreCall τ → Option (StoredSnapshot τ)
  | .save convStates temporalStates metadata =>
    if (StoreCall.save convStates temporalStates metadata).key = some key then
      some { convStates, temporalStates, metadata }
    else current
  | .load .. => current
  | .delete conversationId turnNumber branchName =>
    if keyOf conversationId turnNumber branchName = some key then none else current

theorem save_apply {saved : SnapshotKey} (snapshot : StoredSnapshot τ)
    (named : keyOf snapshot.metadata.conversationId (some snapshot.metadata.turnNumber)
      snapshot.metadata.branchName = some saved) (store : SnapshotKey → Option (StoredSnapshot τ)) :
    (fun key => (StoreCall.save snapshot.convStates snapshot.temporalStates
      snapshot.metadata).apply key (store key)) = Function.update store saved (some snapshot) := by
  funext key
  have isKey : (StoreCall.save snapshot.convStates snapshot.temporalStates
      snapshot.metadata).key = some saved := named
  simp only [StoreCall.apply, isKey, Option.some.injEq, eq_comm, update_apply]

theorem delete_apply {deleted : SnapshotKey}
    (named : keyOf cid turnNumber branchName = some deleted)
    (store : SnapshotKey → Option (StoredSnapshot τ)) :
    (fun key => (StoreCall.delete cid turnNumber branchName).apply key (store key)) =
      Function.update store deleted none := by
  funext key
  simp only [StoreCall.apply, named, Option.some.injEq, eq_comm, update_apply]

/-- The last save under `key` that no delete under `key` follows. -/
def lastSaved (key : SnapshotKey) (calls : List (StoreCall τ)) : Option (StoredSnapshot τ) :=
  calls.foldl (StoreCall.apply key) none

variable [Torch τ] {baseDir : Path} {fs : FileSystem (Content τ)} {key : SnapshotKey}
  {stored : Option (StoredSnapshot τ)} {store : SnapshotKey → Option (StoredSnapshot τ)}

/-- Tensors that pass the validation of a save. -/
def StoredSnapshot.Storable (snapshot : StoredSnapshot τ) : Prop :=
  snapshot.convStates ≠ [] ∧
    (validateStateTensors snapshot.convStates snapshot.temporalStates
      (some snapshot.metadata.conversationId) false).isValid = true

/-- The ids and the branch name pass the sanitizer, the turn is not negative, and
    saved tensors pass validation. -/
def StoreCall.Accepted (call : StoreCall τ) : Prop :=
  (∃ key, call.key = some key ∧ key.Accepted) ∧
    match call with
    | .save convStates temporalStates metadata =>
      StoredSnapshot.Storable { convStates, temporalStates, metadata }
    | _ => True

/-- The file system after a call. -/
def StoreCall.run (baseDir : Path) (fs : FileSystem (Content τ)) :
    StoreCall τ → FileSystem (Content τ)
  | .save convStates temporalStates metadata =>
    (saveSnapshot baseDir none convStates temporalStates metadata fs).2
  | .load conversationId turnNumber branchName =>
    (loadSnapshot baseDir conversationId turnNumber branchName fs).2
  | .delete conversationId turnNumber branchName =>
    (deleteSnapshot baseDir conversationId turnNumber branchName fs).2

def runCalls (baseDir : Path) (calls : List (StoreCall τ)) : FileSystem (Content τ) :=
  calls.foldl (StoreCall.run baseDir) .empty

/-! ### What each call does to the files -/

/-- The two files of `key` hold `stored`, or are both absent. -/
structure Represents (baseDir : Path) (fs : FileSystem (Content τ)) (key : SnapshotKey)
    (stored : Option (StoredSnapshot τ)) : Prop where
  metadata : fs.read? (key.file baseDir .metadata) =
    stored.map (fun snapshot => .metadata snapshot.metadata)
  state : fs.read? (key.file baseDir .state) =
    stored.map (fun snapshot =>
      .tensors (stateDictOf snapshot.convStates snapshot.temporalStates))

omit [Torch τ] in
theorem Represents.frame {fs' : FileSystem (Content τ)}
    (represents : Represents baseDir fs key stored)
    (same : ∀ path, fs'.read? path = fs.read? path) :
    Represents baseDir fs' key stored :=
  ⟨(same _).trans represents.metadata, (same _).trans represents.state⟩

omit [Torch τ] in
theorem file_ne {key' : SnapshotKey} {kind kind' : FileKind}
    (different : key ≠ key' ∨ kind ≠ kind') :
    key.file baseDir kind ≠ key'.file baseDir kind' := by
  intro same
  obtain ⟨sameKey, sameKind⟩ := file_injective same
  exact different.elim (fun other => other sameKey) (fun other => other sameKind)

omit [Torch τ] in
/-- Replacing one file of `key` through its temporary file changes that file alone
    among the metadata and state files of all snapshots. -/
theorem read?_replace_file (baseDir : Path) (fs : FileSystem (Content τ)) {key' : SnapshotKey}
    {kind temporary kind' : FileKind} (content : Content τ)
    (permanent : kind' ≠ temporary) :
    ((fs.write (key.file baseDir temporary) content).rename (key.file baseDir temporary)
        (key.file baseDir kind)).read? (key'.file baseDir kind') =
      if key' = key ∧ kind' = kind then some content
      else fs.read? (key'.file baseDir kind') := by
  rw [FileSystem.read?_rename_write, if_neg (file_ne (.inr permanent))]
  by_cases same : key' = key ∧ kind' = kind
  · obtain ⟨rfl, rfl⟩ := same
    simp
  · rw [if_neg same, if_neg (file_ne (by tauto))]

theorem saveSnapshot_represents {convStates : List τ} {temporalStates : τ}
    {metadata : MambaSnapshotMetadata} {saved : SnapshotKey}
    (named : (StoreCall.save convStates temporalStates metadata).key = some saved)
    (accepted : saved.Accepted)
    (storable : StoredSnapshot.Storable { convStates, temporalStates, metadata })
    (represents : Represents baseDir fs key stored) :
    Represents baseDir (saveSnapshot baseDir none convStates temporalStates metadata fs).2 key
      (if key = saved then some { convStates, temporalStates, metadata } else stored) := by
  obtain ⟨selector, selected, rfl⟩ := Option.map_eq_some_iff.mp named
  obtain ⟨fs', opened, frame⟩ := getSnapshotPaths_ok baseDir selected accepted fs
  have valid : ¬ (validateStateTensors convStates temporalStates
      (some metadata.conversationId) false).isValid = false := by
    simp [storable.2]
  have nonempty : ¬ convStates = [] := storable.1
  unfold saveSnapshot
  simp only [if_neg nonempty, if_neg valid, opened, saveState, saveMetadata,
    pathWithSuffix_state, pathWithSuffix_metadata]
  refine ⟨?_, ?_⟩
  · rw [read?_replace_file baseDir _ _ (by decide),
      read?_replace_file baseDir _ _ (by decide), frame, represents.metadata]
    by_cases same : key = ⟨metadata.conversationId, selector⟩
    · simp [same]
    · simp [same]
  · rw [read?_replace_file baseDir _ _ (by decide),
      read?_replace_file baseDir _ _ (by decide), frame, represents.state]
    by_cases same : key = ⟨metadata.conversationId, selector⟩
    · simp [same]
    · simp [same]

omit [Torch τ] in
theorem deleteSnapshot_represents {deleted : SnapshotKey}
    (named : keyOf cid turnNumber branchName = some deleted) (accepted : deleted.Accepted)
    (represents : Represents baseDir fs key stored) :
    Represents baseDir (deleteSnapshot baseDir cid turnNumber branchName fs).2 key
      (if key = deleted then none else stored) := by
  obtain ⟨selector, selected, rfl⟩ := Option.map_eq_some_iff.mp named
  obtain ⟨fs', opened, frame⟩ := getSnapshotPaths_ok baseDir selected accepted fs
  unfold deleteSnapshot
  simp only [opened]
  by_cases same : key = ⟨cid, selector⟩
  · subst same
    refine ⟨?_, ?_⟩
    · simp [FileSystem.read?_unlink]
    · simp [FileSystem.read?_unlink]
  · refine ⟨?_, ?_⟩
    · rw [FileSystem.read?_unlink, if_neg (file_ne (.inl same)), FileSystem.read?_unlink,
        if_neg (file_ne (.inl same)), frame, represents.metadata, if_neg same]
    · rw [FileSystem.read?_unlink, if_neg (file_ne (.inl same)), FileSystem.read?_unlink,
        if_neg (file_ne (.inl same)), frame, represents.state, if_neg same]

theorem loadSnapshot_read? {loaded : SnapshotKey}
    (named : keyOf cid turnNumber branchName = some loaded) (accepted : loaded.Accepted)
    (path : Path) :
    (loadSnapshot baseDir cid turnNumber branchName fs).2.read? path =
      fs.read? path := by
  obtain ⟨selector, selected, rfl⟩ := Option.map_eq_some_iff.mp named
  obtain ⟨fs', opened, frame⟩ := getSnapshotPaths_ok baseDir selected accepted fs
  unfold loadSnapshot
  rw [opened]
  simp only
  split
  · exact frame path
  · exact frame path
  · exact frame path

/-- What `load_snapshot` answers for the snapshot that the files represent. -/
def loadAnswer (baseDir : Path) (key : SnapshotKey) :
    Option (StoredSnapshot τ) → Except StoreError (StoredSnapshot τ)
  | some snapshot => .ok snapshot
  | none => .error (.fileNotFoundError
      ("Metadata not found: " ++ (key.file baseDir .metadata).text))

theorem loadSnapshot_answer (named : keyOf cid turnNumber branchName = some key)
    (accepted : key.Accepted) (represents : Represents baseDir fs key stored)
    (storable : ∀ snapshot, stored = some snapshot → snapshot.Storable) :
    (loadSnapshot baseDir cid turnNumber branchName fs).1 =
      loadAnswer baseDir key stored := by
  obtain ⟨selector, selected, rfl⟩ := Option.map_eq_some_iff.mp named
  obtain ⟨fs', opened, frame⟩ := getSnapshotPaths_ok baseDir selected accepted fs
  unfold loadSnapshot
  rw [opened]
  simp only [frame, represents.metadata, represents.state]
  cases stored with
  | none => rfl
  | some snapshot =>
    obtain ⟨nonempty, valid⟩ := storable snapshot rfl
    simp only [Option.map_some, decodeSnapshot, lookup_temporal_stateDictOf,
      collectConvStates_stateDictOf, if_neg nonempty, valid]
    rfl

/-! ### Refinement -/

structure Refines (baseDir : Path) (fs : FileSystem (Content τ))
    (store : SnapshotKey → Option (StoredSnapshot τ)) : Prop where
  represents : ∀ key, Represents baseDir fs key (store key)
  storable : ∀ key snapshot, store key = some snapshot → snapshot.Storable

theorem empty_refines (baseDir : Path) :
    Refines baseDir (FileSystem.empty : FileSystem (Content τ)) (fun _ => none) :=
  ⟨fun _ => ⟨rfl, rfl⟩, nofun⟩

theorem run_refines (refines : Refines baseDir fs store) {call : StoreCall τ}
    (accepted : call.Accepted) :
    Refines baseDir (call.run baseDir fs) (fun key => call.apply key (store key)) := by
  obtain ⟨⟨called, named, calledAccepted⟩, content⟩ := accepted
  cases call with
  | save convStates temporalStates metadata =>
    rw [save_apply { convStates, temporalStates, metadata } named]
    refine ⟨?_, ?_⟩
    · intro key
      rw [update_apply]
      exact saveSnapshot_represents named calledAccepted content (refines.represents key)
    intro key snapshot saved
    rw [update_apply] at saved
    split at saved
    · cases saved
      exact content
    · exact refines.storable key snapshot saved
  | load cid turnNumber branchName =>
    refine ⟨?_, refines.storable⟩
    intro key
    exact (refines.represents key).frame (loadSnapshot_read? named calledAccepted)
  | delete cid turnNumber branchName =>
    rw [delete_apply named]
    refine ⟨?_, ?_⟩
    · intro key
      rw [update_apply]
      exact deleteSnapshot_represents named calledAccepted (refines.represents key)
    · intro key snapshot kept
      rw [update_apply] at kept
      split at kept
      · cases kept
      · exact refines.storable key snapshot kept

theorem foldl_refines (calls : List (StoreCall τ)) (accepted : ∀ call ∈ calls, call.Accepted)
    (refines : Refines baseDir fs store) :
    Refines baseDir (calls.foldl (StoreCall.run baseDir) fs)
      (fun key => calls.foldl (StoreCall.apply key) (store key)) := by
  induction calls generalizing fs store with
  | nil => exact refines
  | cons call calls ih =>
    have first := run_refines refines (accepted call (mem_cons_self ..))
    exact ih (fun later member => accepted later (mem_cons_of_mem _ member)) first

theorem runCalls_refines (baseDir : Path) (calls : List (StoreCall τ))
    (accepted : ∀ call ∈ calls, call.Accepted) :
    Refines baseDir (runCalls baseDir calls) (fun key => lastSaved key calls) :=
  foldl_refines calls accepted (empty_refines baseDir)

omit [Torch τ] in
theorem apply_of_key_ne {call : StoreCall τ} (other : call.key ≠ some key)
    (current : Option (StoredSnapshot τ)) : call.apply key current = current := by
  cases call with
  | save convStates temporalStates metadata => exact if_neg other
  | load => rfl
  | delete cid turnNumber branchName => exact if_neg other

/-- After any accepted calls, a load answers with the last save under its key that
    no delete follows, and with an error when there is none; and one more accepted
    call under another key leaves that answer as it is. -/
theorem disk_store_is_finite_map (baseDir : Path) (calls : List (StoreCall τ))
    (accepted : ∀ call ∈ calls, call.Accepted) :
    (∀ conversationId turnNumber branchName key,
      keyOf conversationId turnNumber branchName = some key → key.Accepted →
        (loadSnapshot baseDir conversationId turnNumber branchName
          (runCalls baseDir calls)).1 = loadAnswer baseDir key (lastSaved key calls)) ∧
    ∀ call : StoreCall τ, call.Accepted → ∀ conversationId turnNumber branchName key,
      keyOf conversationId turnNumber branchName = some key → key.Accepted →
      call.key ≠ some key →
        (loadSnapshot baseDir conversationId turnNumber branchName
          (call.run baseDir (runCalls baseDir calls))).1 =
        (loadSnapshot baseDir conversationId turnNumber branchName (runCalls baseDir calls)).1 := by
  have refines := runCalls_refines baseDir calls accepted
  refine ⟨?_, ?_⟩
  · intro conversationId turnNumber branchName key named keyAccepted
    exact loadSnapshot_answer named keyAccepted (refines.represents key) (refines.storable key)
  · intro call callAccepted conversationId turnNumber branchName key named keyAccepted other
    have after := run_refines refines callAccepted
    rw [loadSnapshot_answer named keyAccepted (after.represents key) (after.storable key),
      loadSnapshot_answer named keyAccepted (refines.represents key) (refines.storable key),
      apply_of_key_ne other]

/-- A turn and a branch of one name: the branch is deleted, the turn stays. -/
theorem disk_store_is_finite_map_turn_and_branch :
    let tensor : IntTensor := ⟨.float32, [1], [5]⟩
    let turn : MambaSnapshotMetadata :=
      { conversationId := "c", turnNumber := 1, timestamp := 0, tokenCount := 2, modelName := "m"
        mambaPoolIdx := 1, reqPoolIdx := 1, layerConfig := [("num_layers", .number 1)] }
    let branch : MambaSnapshotMetadata := { turn with branchName := some "turn_1" }
    let calls : List (StoreCall IntTensor) :=
      [.save [tensor] tensor turn, .save [tensor] tensor branch,
       .delete "c" none (some "turn_1")]
    (loadSnapshot ["store"] "c" (some 1) none (runCalls ["store"] calls)).1 =
      .ok { convStates := [tensor], temporalStates := tensor, metadata := turn } := by
  intro tensor turn branch calls
  have storable : ∀ metadata : MambaSnapshotMetadata,
      StoredSnapshot.Storable { convStates := [tensor], temporalStates := tensor, metadata } := by
    intro metadata
    have sound : Sound false tensor := by
      decide
    refine ⟨cons_ne_nil _ _, ?_⟩
    rw [validateStateTensors_isValid_iff]
    exact ⟨cons_ne_nil _ _, by simpa using sound, sound⟩
  have accepted : ∀ call ∈ calls, call.Accepted := by
    intro call member
    simp only [calls, mem_cons, not_mem_nil, or_false] at member
    rcases member with rfl | rfl | rfl
    · exact ⟨⟨⟨"c", .turn 1⟩, rfl, by decide⟩, storable turn⟩
    · exact ⟨⟨⟨"c", .branch "turn_1"⟩, rfl, by decide⟩, storable branch⟩
    · exact ⟨⟨⟨"c", .branch "turn_1"⟩, rfl, by decide⟩, trivial⟩
  exact (disk_store_is_finite_map ["store"] calls accepted).1 "c" (some 1) none
    ⟨"c", .turn 1⟩ rfl (by decide)

end Engram.Snapshot
