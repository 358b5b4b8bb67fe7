import Engram.Snapshot.Retention

/-!
# Listings along runs of the manager

Runs of saves, deletes and read-only calls. Directories are never removed and every call creates
that of the conversation it names, so the listings are exact as long as each call leaves its
conversation with a snapshot and no name contains the words that the listings strip
(`listings_exact_along_orderly_runs`).
-/

namespace Engram.Snapshot

open Lib List Function

/-- The calls that store and delete nothing. -/
inductive ReadCall where
  | loadSnapshot (conversationId : String) (turnNumber : Option Int) (branchName : Option String)
  | loadMetadata (conversationId : String) (turnNumber : Option Int) (branchName : Option String)
  | getSnapshotSize (conversationId : String) (turnNumber : Option Int) (branchName : Option String)
  | getLatestSnapshot (conversationId : String)
  | listSnapshots (conversationId : String)
  | listBranches (conversationId : String)
  | listConversations
deriving DecidableEq, Repr

def ReadCall.conversation : ReadCall → Option String
  | .loadSnapshot conversationId .. => some conversationId
  | .loadMetadata conversationId .. => some conversationId
  | .getSnapshotSize conversationId .. => some conversationId
  | .getLatestSnapshot conversationId => some conversationId
  | .listSnapshots conversationId => some conversationId
  | .listBranches conversationId => some conversationId
  | .listConversations => none

inductive ManagerCall (τ : Type) where
  | save (snapshot : StoredSnapshot τ)
  | delete (conversationId : String) (turnNumber : Option Int) (branchName : Option String)
  | read (call : ReadCall)

variable {τ : Type}

def ManagerCall.storeCall : ManagerCall τ → Option (StoreCall τ)
  | .save snapshot =>
    some (.save snapshot.convStates snapshot.temporalStates snapshot.metadata)
  | .delete conversationId turnNumber branchName =>
    some (.delete conversationId turnNumber branchName)
  | .read _ => none

section Run

variable [Torch τ] (baseDir : Path) (fileSize : Content τ → Nat)

/-- The file system after a read-only call. -/
def ReadCall.run (fs : FileSystem (Content τ)) : ReadCall → FileSystem (Content τ)
  | .loadSnapshot conversationId turnNumber branchName =>
    (Snapshot.loadSnapshot baseDir conversationId turnNumber branchName fs).2
  | .loadMetadata conversationId turnNumber branchName =>
    (Snapshot.loadMetadata baseDir conversationId turnNumber branchName fs).2
  | .getSnapshotSize conversationId turnNumber branchName =>
    (Snapshot.getSnapshotSize baseDir fileSize conversationId turnNumber branchName fs).2
  | .getLatestSnapshot conversationId =>
    (Snapshot.getLatestSnapshot baseDir conversationId fs).2
  | .listSnapshots conversationId => (Snapshot.listSnapshots baseDir conversationId fs).2
  | .listBranches conversationId => (Snapshot.listBranches baseDir conversationId fs).2
  | .listConversations => fs

def ManagerCall.run (fs : FileSystem (Content τ)) : ManagerCall τ → FileSystem (Content τ)
  | .save snapshot =>
    (saveSnapshot baseDir none snapshot.convStates snapshot.temporalStates snapshot.metadata fs).2
  | .delete conversationId turnNumber branchName =>
    (deleteSnapshot baseDir conversationId turnNumber branchName fs).2
  | .read call => call.run baseDir fileSize fs

def runManager (calls : List (ManagerCall τ)) : FileSystem (Content τ) :=
  calls.foldl (ManagerCall.run baseDir fileSize) .empty

/-- Accepted ids and branch names, and tensors that pass validation. -/
def ManagerCall.Accepted (call : ManagerCall τ) : Prop :=
  ∀ stored, call.storeCall = some stored → stored.Accepted

end Run

/-- The snapshot that the calls leave under `key`. -/
def leftUnder (key : SnapshotKey) (calls : List (ManagerCall τ)) : Option (StoredSnapshot τ) :=
  lastSaved key (calls.filterMap ManagerCall.storeCall)

/-- A save with names free of the stripped words, a delete that leaves another snapshot of
    the conversation, a read of a conversation that has one. -/
def ManagerCall.Orderly (baseDir : Path) (fs : FileSystem (Content τ)) : ManagerCall τ → Prop
  | .save snapshot =>
    containsMarker "conversation_" snapshot.metadata.conversationId = false ∧
      ∀ branch, snapshot.metadata.branchName = some branch →
        containsMarker "_metadata" branch = false
  | .delete conversationId turnNumber branchName =>
    ∃ selector, keyOf conversationId turnNumber branchName ≠ some ⟨conversationId, selector⟩ ∧
      HasSnapshot baseDir fs ⟨conversationId, selector⟩
  | .read call =>
    ∀ conversationId, call.conversation = some conversationId → Sanitized conversationId →
      ∃ selector, HasSnapshot baseDir fs ⟨conversationId, selector⟩

/-- Every call of the run is accepted and orderly in the state it is made in. -/
def OrderlyFrom [Torch τ] (baseDir : Path) (fileSize : Content τ → Nat) :
    FileSystem (Content τ) → List (ManagerCall τ) → Prop
  | _, [] => True
  | fs, call :: calls =>
    call.Accepted ∧ call.Orderly baseDir fs ∧
      OrderlyFrom baseDir fileSize (call.run baseDir fileSize fs) calls

/-- The listings show exactly what is stored, in ascending order and once each. -/
structure ExactListings (baseDir : Path) (fs : FileSystem (Content τ))
    (stored : SnapshotKey → Prop) : Prop where
  conversations : (listConversations baseDir fs).Pairwise (· < ·) ∧
    ∀ conversationId, conversationId ∈ listConversations baseDir fs ↔
      ∃ selector, stored ⟨conversationId, selector⟩
  snapshots : ∀ conversationId, Sanitized conversationId → ∃ turns,
    (listSnapshots baseDir conversationId fs).1 = .ok turns ∧ turns.Pairwise (· < ·) ∧
      ∀ turn, turn ∈ turns ↔ stored ⟨conversationId, .turn turn⟩
  branches : ∀ conversationId, Sanitized conversationId → ∃ branches,
    (listBranches baseDir conversationId fs).1 = .ok branches ∧ branches.Pairwise (· < ·) ∧
      ∀ branch, branch ∈ branches ↔ stored ⟨conversationId, .branch branch⟩

/-! ### The invariant -/

variable [Torch τ] {baseDir : Path} {fs fs' : FileSystem (Content τ)}
  {store : SnapshotKey → Option (StoredSnapshot τ)} {cid : String}

structure Listed (baseDir : Path) (fs : FileSystem (Content τ))
    (store : SnapshotKey → Option (StoredSnapshot τ)) : Prop where
  onDisk : OnDisk baseDir fs store
  plainIds : PlainIds baseDir fs
  plainBranches : ∀ conversationId, PlainBranches store conversationId
  inhabited : ∀ conversationId, conversationDir baseDir conversationId ∈ fs.dirs →
    ∃ selector, (store ⟨conversationId, selector⟩).isSome = true

theorem Listed.empty :
    Listed baseDir (FileSystem.empty : FileSystem (Content τ)) (fun _ => none) where
  onDisk := .empty
  plainIds := nofun
  plainBranches := nofun
  inhabited := nofun

theorem Listed.exact (listed : Listed baseDir fs store) :
    ExactListings baseDir fs (fun key => (store key).isSome = true) where
  conversations := by
    refine ⟨listed.onDisk.tidy.listConversations_ordered listed.plainIds, ?_⟩
    intro cid
    rw [listed.onDisk.tidy.mem_listConversations listed.plainIds]
    constructor
    · exact listed.inhabited cid
    · rintro ⟨selector, stored⟩
      exact listed.onDisk.conversationDir_mem stored
  snapshots := by
    intro cid sanitized
    obtain ⟨turns, fs', listing, -, ordered, member⟩ := listed.onDisk.listSnapshots sanitized
    exact ⟨turns, by rw [listing], ordered, member⟩
  branches := by
    intro cid sanitized
    obtain ⟨branches, fs', listing, -, ordered, member⟩ :=
      listed.onDisk.listBranches sanitized (listed.plainBranches cid)
    exact ⟨branches, by rw [listing], ordered, member⟩

/-! ### One call -/

theorem ReadCall.run_opened (baseDir : Path) (fileSize : Content τ → Nat) (call : ReadCall)
    (names : call.conversation = some cid) (fs : FileSystem (Content τ)) :
    Opened baseDir cid fs (call.run baseDir fileSize fs) := by
  cases call with
  | loadSnapshot owner turnNumber branchName =>
    cases names
    exact loadSnapshot_opened baseDir cid turnNumber branchName fs
  | loadMetadata owner turnNumber branchName =>
    cases names
    have opens := getSnapshotPaths_opened baseDir cid turnNumber branchName fs
    simp only [ReadCall.run, Snapshot.loadMetadata]
    split
    · next refused => rwa [refused] at opens
    · next given =>
      rw [given] at opens
      split
      · exact opens
      · exact opens
  | getSnapshotSize owner turnNumber branchName =>
    cases names
    have opens := getSnapshotPaths_opened baseDir cid turnNumber branchName fs
    simp only [ReadCall.run, Snapshot.getSnapshotSize]
    split
    · next refused => rwa [refused] at opens
    · next given => rwa [given] at opens
  | getLatestSnapshot owner =>
    cases names
    exact getLatestSnapshot_opened baseDir cid fs
  | listSnapshots owner =>
    cases names
    exact listSnapshots_opened baseDir cid fs
  | listBranches owner =>
    cases names
    exact listBranches_opened baseDir cid fs
  | listConversations => cases names

section

variable (listed : Listed baseDir fs store)

include listed

theorem Listed.opened (opens : Opened baseDir cid fs fs') (stored : Sanitized cid →
      ∃ selector, (store ⟨cid, selector⟩).isSome = true) :
    Listed baseDir fs' store := by
  have noNewDir : ∀ other, conversationDir baseDir other ∈ fs'.dirs →
      conversationDir baseDir other ∈ fs.dirs := by
    intro other present
    rcases opens.conversationDir_mem present with before | ⟨rfl, sanitized⟩
    · exact before
    · obtain ⟨selector, isStored⟩ := stored sanitized
      exact listed.onDisk.conversationDir_mem isStored
  exact
    { onDisk := listed.onDisk.opened opens
      plainIds := fun other present => listed.plainIds other (noNewDir other present)
      plainBranches := listed.plainBranches
      inhabited := fun other present => listed.inhabited other (noNewDir other present) }

theorem Listed.read (fileSize : Content τ → Nat)
    {call : ReadCall} (orderly : (ManagerCall.read call).Orderly baseDir fs) :
    Listed baseDir (call.run baseDir fileSize fs) store := by
  cases names : call.conversation with
  | none =>
    cases call with
    | listConversations => exact listed
    | _ => cases names
  | some cid =>
    refine listed.opened (call.run_opened baseDir fileSize names fs) ?_
    intro sanitized
    obtain ⟨selector, present⟩ := orderly cid names sanitized
    exact ⟨selector, listed.onDisk.hasSnapshot_iff.mp present⟩

theorem Listed.save {snapshot : StoredSnapshot τ} (accepted : (ManagerCall.save snapshot).Accepted)
    (orderly : (ManagerCall.save snapshot).Orderly baseDir fs) :
    Listed baseDir (saveSnapshot baseDir none snapshot.convStates snapshot.temporalStates
      snapshot.metadata fs).2
      (fun key => (StoreCall.save snapshot.convStates snapshot.temporalStates
        snapshot.metadata).apply key (store key)) := by
  obtain ⟨⟨saved, named, savedAccepted⟩, storable⟩ := accepted _ rfl
  obtain ⟨plainId, plainBranch⟩ := orderly
  have isKey : snapshot.key = some saved := named
  obtain ⟨selector, selected, rfl⟩ := Option.map_eq_some_iff.mp named
  rw [save_apply snapshot named]
  have dirs : (saveSnapshot baseDir none snapshot.convStates snapshot.temporalStates
      snapshot.metadata fs).2.dirs =
        (SnapshotKey.makeDirs baseDir ⟨snapshot.metadata.conversationId, selector⟩ fs).dirs := by
    rw [saveSnapshot_eq none storable isKey savedAccepted]
    simp [saveState, saveMetadata]
  -- of directories only that of the conversation may be new
  have opens : Opened baseDir snapshot.metadata.conversationId fs
      (SnapshotKey.makeDirs baseDir ⟨snapshot.metadata.conversationId, selector⟩ fs) :=
    .makeDirs savedAccepted fs
  refine ⟨?_, ?_, ?_, ?_⟩
  · rcases listed.onDisk.save snapshot with
      ⟨error, fs', raised, -⟩ | ⟨paths, fs', key, done, same, -, -, onDisk⟩
    · rw [saveSnapshot_eq none storable isKey savedAccepted] at raised
      cases raised
    · rw [isKey] at same
      cases same
      rw [done]
      exact onDisk
  · intro other present
    rw [dirs] at present
    rcases opens.conversationDir_mem present with before | ⟨rfl, -⟩
    · exact listed.plainIds other before
    · exact plainId
  · intro other branch stored
    rw [update_apply] at stored
    split at stored
    · next same =>
      cases same
      exact plainBranch branch (branchName_of_selectorOf selected)
    · exact listed.plainBranches other branch stored
  · intro other present
    rw [dirs] at present
    rcases opens.conversationDir_mem present with before | ⟨rfl, -⟩
    · obtain ⟨stored, isStored⟩ := listed.inhabited other before
      refine ⟨stored, ?_⟩
      rw [update_apply]
      split
      · rfl
      · exact isStored
    · exact ⟨selector, by simp⟩

theorem Listed.delete {turnNumber : Option Int} {branchName : Option String}
    (accepted : (ManagerCall.delete cid turnNumber branchName : ManagerCall τ).Accepted)
    (orderly : (ManagerCall.delete cid turnNumber branchName).Orderly baseDir fs) :
    Listed baseDir (deleteSnapshot baseDir cid turnNumber branchName fs).2
      (fun key => (StoreCall.delete cid turnNumber branchName).apply key (store key)) := by
  obtain ⟨⟨deleted, named, deletedAccepted⟩, -⟩ := accepted _ rfl
  have isKey : keyOf cid turnNumber branchName = some deleted := named
  obtain ⟨kept, isOther, present⟩ := orderly
  have keptStored := listed.onDisk.hasSnapshot_iff.mp present
  have keptKey : (⟨cid, kept⟩ : SnapshotKey) ≠ deleted := by
    intro same
    rw [isKey, same] at isOther
    exact isOther rfl
  rw [delete_apply isKey]
  obtain ⟨fs', done, onDisk⟩ := listed.onDisk.delete isKey deletedAccepted
  obtain ⟨selector, selected, rfl⟩ := Option.map_eq_some_iff.mp isKey
  have dirs : (deleteSnapshot baseDir cid turnNumber branchName fs).2.dirs =
      (SnapshotKey.makeDirs baseDir ⟨cid, selector⟩ fs).dirs := by
    simp [deleteSnapshot, getSnapshotPaths_eq baseDir selected deletedAccepted]
  rw [done] at dirs ⊢
  have opens : Opened baseDir cid fs
      (SnapshotKey.makeDirs baseDir ⟨cid, selector⟩ fs) := .makeDirs deletedAccepted fs
  -- the directory was there, for the snapshot that stays
  have noNewDir : ∀ other, conversationDir baseDir other ∈ fs'.dirs →
      conversationDir baseDir other ∈ fs.dirs := by
    intro other isDir
    rw [dirs] at isDir
    rcases opens.conversationDir_mem isDir with before | ⟨rfl, -⟩
    · exact before
    · exact listed.onDisk.conversationDir_mem keptStored
  refine ⟨onDisk, fun other isDir => listed.plainIds other (noNewDir other isDir), ?_, ?_⟩
  · intro other branch stored
    rw [update_apply] at stored
    split at stored
    · cases stored
    · exact listed.plainBranches other branch stored
  intro other isDir
  by_cases same : other = cid
  · subst same
    exact ⟨kept, by rwa [update_of_ne keptKey]⟩
  obtain ⟨stored, isStored⟩ := listed.inhabited other (noNewDir other isDir)
  refine ⟨stored, ?_⟩
  rwa [update_of_ne]
  intro equal
  cases equal
  exact same rfl

end

/-! ### Whole runs -/

def ManagerCall.apply (key : SnapshotKey) (current : Option (StoredSnapshot τ))
    (call : ManagerCall τ) : Option (StoredSnapshot τ) :=
  match call.storeCall with
  | some stored => stored.apply key current
  | none => current

omit [Torch τ] in
theorem foldl_apply_eq (key : SnapshotKey) (calls : List (ManagerCall τ))
    (current : Option (StoredSnapshot τ)) :
    calls.foldl (ManagerCall.apply key) current =
      (calls.filterMap ManagerCall.storeCall).foldl (StoreCall.apply key) current := by
  induction calls generalizing current with
  | nil => rfl
  | cons call calls ih =>
    rw [foldl_cons, ih, ManagerCall.apply]
    cases isStored : call.storeCall with
    | none => rw [filterMap_cons_none isStored]
    | some stored => rw [filterMap_cons_some isStored, foldl_cons]

theorem Listed.step (listed : Listed baseDir fs store) (fileSize : Content τ → Nat)
    {call : ManagerCall τ} (accepted : call.Accepted) (orderly : call.Orderly baseDir fs) :
    Listed baseDir (call.run baseDir fileSize fs) (fun key => call.apply key (store key)) := by
  cases call with
  | save snapshot => exact listed.save accepted orderly
  | delete cid turnNumber branchName => exact listed.delete accepted orderly
  | read call => exact listed.read fileSize orderly

theorem Listed.run (fileSize : Content τ → Nat) (calls : List (ManagerCall τ))
    (listed : Listed baseDir fs store) (orderly : OrderlyFrom baseDir fileSize fs calls) :
    Listed baseDir (calls.foldl (ManagerCall.run baseDir fileSize) fs)
      (fun key => calls.foldl (ManagerCall.apply key) (store key)) := by
  induction calls generalizing fs store with
  | nil => exact listed
  | cons call calls ih =>
    obtain ⟨accepted, here, later⟩ := orderly
    exact ih (listed.step fileSize accepted here) later

theorem runManager_listed (baseDir : Path) (fileSize : Content τ → Nat)
    (calls : List (ManagerCall τ)) (orderly : OrderlyFrom baseDir fileSize .empty calls) :
    Listed baseDir (runManager baseDir fileSize calls) (fun key => leftUnder key calls) := by
  have listed := Listed.run fileSize calls .empty orderly
  simp only [foldl_apply_eq] at listed
  exact listed

theorem eq_of_ordered {α : Type} [LinearOrder α] {first second : List α}
    (ordered : first.Pairwise (· < ·)) (ordered' : second.Pairwise (· < ·))
    (same : ∀ a, a ∈ first ↔ a ∈ second) : first = second := by
  have permuted : first.Perm second :=
    (perm_ext_iff_of_nodup (ordered.imp ne_of_lt) (ordered'.imp ne_of_lt)).mpr same
  exact permuted.eq_of_pairwise' ordered ordered'

/-- Both file systems give the same listings. -/
structure SameListings (baseDir : Path) (fs fs' : FileSystem (Content τ)) : Prop where
  conversations : listConversations baseDir fs' = listConversations baseDir fs
  snapshots : ∀ conversationId, Sanitized conversationId →
    (listSnapshots baseDir conversationId fs').1 = (listSnapshots baseDir conversationId fs).1
  branches : ∀ conversationId, Sanitized conversationId →
    (listBranches baseDir conversationId fs').1 = (listBranches baseDir conversationId fs).1

omit [Torch τ] in
theorem ExactListings.same {stored : SnapshotKey → Prop} (before : ExactListings baseDir fs stored)
    (after : ExactListings baseDir fs' stored) :
    SameListings baseDir fs fs' where
  conversations := by
    apply eq_of_ordered after.conversations.1 before.conversations.1
    intro cid
    rw [after.conversations.2, before.conversations.2]
  snapshots := by
    intro cid sanitized
    obtain ⟨turns, listed, ordered, member⟩ := before.snapshots cid sanitized
    obtain ⟨turns', listed', ordered', member'⟩ := after.snapshots cid sanitized
    have same : turns' = turns := by
      apply eq_of_ordered ordered' ordered
      intro turn
      rw [member', member]
    rw [listed, listed', same]
  branches := by
    intro cid sanitized
    obtain ⟨branches, listed, ordered, member⟩ := before.branches cid sanitized
    obtain ⟨branches', listed', ordered', member'⟩ := after.branches cid sanitized
    have same : branches' = branches := by
      apply eq_of_ordered ordered' ordered
      intro branch
      rw [member', member]
    rw [listed, listed', same]

theorem OnDisk.load_after_cleanup (onDisk : OnDisk baseDir fs store) (sanitized : Sanitized cid)
    (plain : PlainBranches store cid) (turnNumber : Option Int) (branchName : Option String) :
    ∃ error, (loadSnapshot baseDir cid turnNumber branchName
      (cleanupAllSnapshots baseDir cid fs).2).1 = .error error := by
  obtain ⟨deleted, fs', store', cleaned, onDisk', removed⟩ := onDisk.cleanup sanitized plain
  rw [cleaned]
  obtain ⟨fs'', -, answer⟩ := onDisk'.load_cases cid turnNumber branchName
  rcases answer with ⟨key, snapshot, named, stored, -⟩ | ⟨error, raised, -⟩
  · obtain ⟨selector, -, rfl⟩ := Option.map_eq_some_iff.mp named
    rw [removed, if_pos rfl] at stored
    cases stored
  · exact ⟨error, by rw [raised]⟩

/-- Along every orderly run the listings show exactly what is stored, an orderly read
    leaves them as they are, and after a cleanup of a conversation no turn and no branch
    of it loads. -/
theorem listings_exact_along_orderly_runs (baseDir : Path) (fileSize : Content τ → Nat)
    (calls : List (ManagerCall τ)) (orderly : OrderlyFrom baseDir fileSize .empty calls) :
    ExactListings baseDir (runManager baseDir fileSize calls)
      (fun key => (leftUnder key calls).isSome = true) ∧
    (∀ call : ReadCall, (ManagerCall.read call).Orderly baseDir
      (runManager baseDir fileSize calls) →
      SameListings baseDir (runManager baseDir fileSize calls)
        (call.run baseDir fileSize (runManager baseDir fileSize calls))) ∧
    ∀ conversationId, Sanitized conversationId → ∀ turnNumber branchName, ∃ error,
      (loadSnapshot baseDir conversationId turnNumber branchName
        (cleanupAllSnapshots baseDir conversationId (runManager baseDir fileSize calls)).2).1 =
        .error error := by
  have listed := runManager_listed baseDir fileSize calls orderly
  refine ⟨listed.exact, ?_, ?_⟩
  · intro call orderlyRead
    exact listed.exact.same (listed.read fileSize orderlyRead).exact
  · intro conversationId sanitized turnNumber branchName
    exact listed.onDisk.load_after_cleanup sanitized (listed.plainBranches conversationId)
      turnNumber branchName

section Examples

def sampleSnapshot (branchName : Option String) : StoredSnapshot IntTensor where
  convStates := [⟨.float32, [1], [5]⟩]
  temporalStates := ⟨.float32, [1], [5]⟩
  metadata :=
    { conversationId := "c", turnNumber := 1, timestamp := 0, tokenCount := 2, modelName := "m"
      mambaPoolIdx := 1, reqPoolIdx := 1, layerConfig := [("num_layers", .number 1)], branchName }

private theorem sampleSnapshot_accepted (branchName : Option String) (key : SnapshotKey)
    (named : (sampleSnapshot branchName).key = some key) (accepted : key.Accepted) :
    (ManagerCall.save (sampleSnapshot branchName)).Accepted := by
  rintro stored ⟨⟩
  have sound : Sound false (⟨.float32, [1], [5]⟩ : IntTensor) := by
    decide
  refine ⟨⟨key, named, accepted⟩, cons_ne_nil _ _, ?_⟩
  rw [validateStateTensors_isValid_iff]
  exact ⟨cons_ne_nil _ _, by simpa [sampleSnapshot] using sound, sound⟩

/-- A turn, a branch of it, a load of the branch and the deletion of the turn. -/
theorem listings_exact_for_turn_and_branch :
    let calls : List (ManagerCall IntTensor) :=
      [.save (sampleSnapshot none), .save (sampleSnapshot (some "b")),
       .read (.loadSnapshot "c" none (some "b")), .delete "c" (some 1) none]
    listConversations ["store"] (runManager ["store"] (fun _ => 0) calls) = ["c"] ∧
      ExactListings ["store"] (runManager ["store"] (fun _ => 0) calls)
        (fun key => (leftUnder key calls).isSome = true) := by
  intro calls
  have orderly : OrderlyFrom ["store"] (fun _ => 0) .empty calls := by
    refine ⟨sampleSnapshot_accepted none ⟨"c", .turn 1⟩ rfl (by decide),
      ⟨by decide +kernel, nofun⟩,
      sampleSnapshot_accepted (some "b") ⟨"c", .branch "b"⟩ rfl (by decide),
      ⟨by decide +kernel, ?_⟩, nofun, ?_, ?_, ⟨.branch "b", by decide, by decide +kernel⟩, trivial⟩
    · rintro branch ⟨⟩
      decide +kernel
    · rintro conversationId ⟨⟩ -
      exact ⟨.turn 1, by decide +kernel⟩
    · rintro stored ⟨⟩
      exact ⟨⟨⟨"c", .turn 1⟩, rfl, by decide⟩, trivial⟩
  exact ⟨by decide +kernel,
    (listings_exact_along_orderly_runs ["store"] (fun _ => 0) calls orderly).1⟩

/-- A branch whose name contains `_metadata` is listed under another name and outlives a
    cleanup; a load of an unknown conversation adds it to the listing. -/
theorem listings_not_exact :
    let calls : List (ManagerCall IntTensor) := [.save (sampleSnapshot (some "b_metadata"))]
    let fs := runManager ["store"] (fun _ => 0) calls
    (∀ call ∈ calls, call.Accepted) ∧
      ¬ ExactListings ["store"] fs (fun key => (leftUnder key calls).isSome = true) ∧
      listConversations ["store"] fs = ["c"] ∧
      listConversations ["store"]
        ((ReadCall.loadSnapshot "ghost" (some 1) none).run ["store"] (fun _ => 0) fs) =
          ["c", "ghost"] ∧
      (loadSnapshot ["store"] "c" none (some "b_metadata")
        (cleanupAllSnapshots ["store"] "c" fs).2).1 = .ok (sampleSnapshot (some "b_metadata")) := by
  intro calls fs
  refine ⟨?_, ?_, by decide +kernel, by decide +kernel, by decide +kernel⟩
  · intro call member
    obtain rfl : call = .save (sampleSnapshot (some "b_metadata")) := by
      simpa [calls] using member
    exact sampleSnapshot_accepted _ ⟨"c", .branch "b_metadata"⟩ rfl (by decide)
  intro listings
  obtain ⟨branches, listed, -, member⟩ := listings.branches "c" (by decide)
  have shown : (listBranches ["store"] "c" fs).1 = .ok ["b"] := by
    decide +kernel
  rw [shown] at listed
  cases listed
  have stored : (leftUnder ⟨"c", .branch "b_metadata"⟩ calls).isSome = true := by
    decide
  exact absurd ((member "b_metadata").mpr stored) (by decide)

end Examples

end Engram.Snapshot
