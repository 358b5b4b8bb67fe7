import Engram.Snapshot.Refinement
import Engram.Snapshot.Policy

/-!
# The directory tree of the store

Every directory and file under the base directory is one that the manager laid out for an accepted
key, so what a listing reads off the names is what is stored. `OnDisk` joins this with the
refinement of the finite map; each call has one lemma that says what it does to the map and what
it answers.
-/

namespace Engram.Snapshot

open Lib

variable {τ γ : Type} {baseDir : Path} {fs : FileSystem (Content τ)}

/-! ### Calls that only open directories -/

/-- From `fs` to `fs'` at most directories of one accepted conversation were created. -/
structure Opened (baseDir : Path) (conversationId : String) (fs fs' : FileSystem γ) : Prop where
  files : fs'.files = fs.files
  kept : ∀ dir ∈ fs.dirs, dir ∈ fs'.dirs
  opened : ∀ dir ∈ fs'.dirs, dir ∈ fs.dirs ∨ Sanitized conversationId ∧
    (dir = conversationDir baseDir conversationId ∨
      dir = conversationDir baseDir conversationId ++ ["branches"])
  nodup : fs.dirs.Nodup → fs'.dirs.Nodup

namespace Opened

variable {cid : String} {fs fs' fs'' : FileSystem γ}

theorem refl (fs : FileSystem γ) : Opened baseDir cid fs fs :=
  ⟨rfl, fun _ member => member, fun _ member => .inl member, id⟩

theorem trans (first : Opened baseDir cid fs fs')
    (second : Opened baseDir cid fs' fs'') : Opened baseDir cid fs fs'' where
  files := second.files.trans first.files
  kept := fun dir member => second.kept dir (first.kept dir member)
  opened := by
    intro dir member
    rcases second.opened dir member with before | created
    · exact first.opened dir before
    · exact .inr created
  nodup := fun nodup => second.nodup (first.nodup nodup)

theorem read? (opened : Opened baseDir cid fs fs') (path : Path) :
    fs'.read? path = fs.read? path := by
  rw [FileSystem.read?, FileSystem.read?, opened.files]

theorem mkdir (sanitized : Sanitized cid) {dir : Path} (own : dir = conversationDir baseDir cid ∨
      dir = conversationDir baseDir cid ++ ["branches"]) (fs : FileSystem γ) :
    Opened baseDir cid fs (fs.mkdir dir) where
  files := FileSystem.files_mkdir ..
  kept := fun _ member => FileSystem.mem_dirs_mkdir.mpr (.inr member)
  opened := by
    intro other member
    rcases FileSystem.mem_dirs_mkdir.mp member with rfl | before
    · exact .inr ⟨sanitized, own⟩
    · exact .inl before
  nodup := fun nodup => FileSystem.nodup_dirs_mkdir nodup dir

theorem makeDirs {key : SnapshotKey} (accepted : key.Accepted) (fs : FileSystem γ) :
    Opened baseDir key.conversationId fs (key.makeDirs baseDir fs) := by
  refine (mkdir accepted.1 (.inl rfl) fs).trans (mkdir accepted.1 ?_ _)
  unfold SnapshotKey.dir
  cases key.selector with
  | turn number => exact .inl rfl
  | branch name => exact .inr rfl

theorem conversationDir_mem (opens : Opened baseDir cid fs fs') {other : String}
    (present : conversationDir baseDir other ∈ fs'.dirs) :
    conversationDir baseDir other ∈ fs.dirs ∨ other = cid ∧ Sanitized cid := by
  rcases opens.opened _ present with before | ⟨sanitized, own | below⟩
  · exact .inl before
  · right
    have same : other = cid := by
      simpa [conversationDir] using own
    exact ⟨same, sanitized⟩
  · have lengths := congrArg List.length below
    simp [conversationDir] at lengths

end Opened

theorem getConversationDir_opened (baseDir : Path) (cid : String) (fs : FileSystem γ) :
    Opened baseDir cid fs (getConversationDir baseDir cid fs).2 := by
  rcases getConversationDir_cases baseDir cid fs with sanitized | ⟨error, refused⟩
  · rw [getConversationDir_ok baseDir sanitized]
    exact .mkdir sanitized (.inl rfl) fs
  · rw [refused]
    exact .refl fs

theorem getSnapshotPaths_opened (baseDir : Path) (cid : String) (turnNumber : Option Int)
    (branchName : Option String) (fs : FileSystem γ) :
    Opened baseDir cid fs
      (getSnapshotPaths baseDir cid turnNumber branchName fs).2 := by
  rcases getSnapshotPaths_cases baseDir cid turnNumber branchName fs with
    ⟨selector, selected, accepted⟩ | ⟨error, refused | ⟨sanitized, refused⟩⟩
  · rw [getSnapshotPaths_eq baseDir selected accepted]
    exact .makeDirs accepted fs
  · rw [refused]
    exact .refl fs
  · rw [refused]
    exact .mkdir sanitized (.inl rfl) fs

theorem loadSnapshot_opened [Torch τ] (baseDir : Path) (cid : String) (turnNumber : Option Int)
    (branchName : Option String) (fs : FileSystem (Content τ)) :
    Opened baseDir cid fs
      (loadSnapshot baseDir cid turnNumber branchName fs).2 := by
  have opened := getSnapshotPaths_opened baseDir cid turnNumber branchName fs
  unfold loadSnapshot
  split
  · next error fs' paths => rwa [paths] at opened
  · next metadataPath statePath fs' paths =>
    rw [paths] at opened
    split
    · exact opened
    · exact opened
    · exact opened

theorem listSnapshots_opened (baseDir : Path) (cid : String) (fs : FileSystem (Content τ)) :
    Opened baseDir cid fs (listSnapshots baseDir cid fs).2 := by
  have opens := getConversationDir_opened baseDir cid fs
  unfold listSnapshots
  split
  · next refused => rwa [refused] at opens
  · next given => rwa [given] at opens

theorem listBranches_opened (baseDir : Path) (cid : String) (fs : FileSystem (Content τ)) :
    Opened baseDir cid fs (listBranches baseDir cid fs).2 := by
  have opens := getConversationDir_opened baseDir cid fs
  unfold listBranches
  split
  · next refused => rwa [refused] at opens
  · next given =>
    rw [given] at opens
    simp only
    split
    · exact opens
    · exact opens

theorem getLatestSnapshot_opened (baseDir : Path) (cid : String) (fs : FileSystem (Content τ)) :
    Opened baseDir cid fs (getLatestSnapshot baseDir cid fs).2 := by
  have opens := listSnapshots_opened baseDir cid fs
  unfold getLatestSnapshot
  split
  · next refused => rwa [refused] at opens
  · next turns fs₁ listed =>
    rw [listed] at opens
    split
    · exact opens
    · next latestTurn latest =>
      have more := getSnapshotPaths_opened baseDir cid (some latestTurn) none fs₁
      split
      · next refused =>
        rw [refused] at more
        exact opens.trans more
      · next given =>
        rw [given] at more
        split
        · exact opens.trans more
        · exact opens.trans more
        · exact opens.trans more

/-! ### Every name belongs to an accepted key -/

structure Tidy (baseDir : Path) (fs : FileSystem γ) : Prop where
  dirsNodup : fs.dirs.Nodup
  dirs : ∀ dir ∈ fs.dirs, ∃ conversationId, Sanitized conversationId ∧
    (dir = conversationDir baseDir conversationId ∨
      dir = conversationDir baseDir conversationId ++ ["branches"])
  files : ∀ path ∈ fs.files, ∃ (key : SnapshotKey) (kind : FileKind), key.Accepted ∧
    path = key.file baseDir kind ∧
    conversationDir baseDir key.conversationId ∈ fs.dirs ∧ key.dir baseDir ∈ fs.dirs

namespace Tidy

variable {fs fs' : FileSystem γ}

theorem empty : Tidy baseDir (FileSystem.empty : FileSystem γ) where
  dirsNodup := List.nodup_nil
  dirs := nofun
  files := nofun

section

variable (tidy : Tidy baseDir fs) {cid : String}

include tidy

theorem opened (opens : Opened baseDir cid fs fs') : Tidy baseDir fs' where
  dirsNodup := opens.nodup tidy.dirsNodup
  dirs := by
    intro dir member
    rcases opens.opened dir member with before | created
    · exact tidy.dirs dir before
    · exact ⟨cid, created⟩
  files := by
    intro path member
    rw [opens.files] at member
    obtain ⟨key, kind, accepted, isFile, convDir, dir⟩ := tidy.files path member
    exact ⟨key, kind, accepted, isFile, opens.kept _ convDir, opens.kept _ dir⟩

theorem write {key : SnapshotKey} (accepted : key.Accepted)
    (convDir : conversationDir baseDir key.conversationId ∈ fs.dirs)
    (dir : key.dir baseDir ∈ fs.dirs) (kind : FileKind) (content : γ) :
    Tidy baseDir (fs.write (key.file baseDir kind) content) where
  dirsNodup := tidy.dirsNodup
  dirs := tidy.dirs
  files := by
    intro path member
    rcases OrderedDict.mem_insert.mp member with rfl | before
    · exact ⟨key, kind, accepted, rfl, convDir, dir⟩
    · exact tidy.files path before

theorem unlink (path : Path) : Tidy baseDir (fs.unlink path) where
  dirsNodup := tidy.dirsNodup
  dirs := tidy.dirs
  files := fun other member => tidy.files other (OrderedDict.mem_erase.mp member).2

theorem rename (source : Path) {key : SnapshotKey}
    (accepted : key.Accepted) (convDir : conversationDir baseDir key.conversationId ∈ fs.dirs)
    (dir : key.dir baseDir ∈ fs.dirs) (kind : FileKind) :
    Tidy baseDir (fs.rename source (key.file baseDir kind)) := by
  unfold FileSystem.rename
  split
  · exact tidy
  · exact (tidy.unlink source).write accepted convDir dir kind _

theorem accepted {key : SnapshotKey} {kind : FileKind}
    (present : key.file baseDir kind ∈ fs.files) : key.Accepted := by
  obtain ⟨owner, kind', accepted, same, -⟩ := tidy.files _ present
  rw [(file_injective same).1]
  exact accepted

end

end Tidy

/-! ### The store on disk -/

/-- A snapshot is on disk under `key`. -/
def HasSnapshot (baseDir : Path) (fs : FileSystem (Content τ)) (key : SnapshotKey) : Prop :=
  fs.isFile (key.file baseDir .metadata) = true
deriving Decidable

/-- The key a snapshot is saved under. -/
def StoredSnapshot.key (snapshot : StoredSnapshot τ) : Option SnapshotKey :=
  keyOf snapshot.metadata.conversationId (some snapshot.metadata.turnNumber)
    snapshot.metadata.branchName

variable [Torch τ] {snapshot : StoredSnapshot τ} {turnNumber : Option Int}
  {branchName : Option String}

theorem saveSnapshot_eq (fault : Option SaveFault) (storable : snapshot.Storable)
    {key : SnapshotKey} (named : snapshot.key = some key) (accepted : key.Accepted)
    (fs : FileSystem (Content τ)) :
    saveSnapshot baseDir fault snapshot.convStates snapshot.temporalStates snapshot.metadata fs =
      match saveState fault (key.file baseDir .state)
          (stateDictOf snapshot.convStates snapshot.temporalStates) (key.makeDirs baseDir fs) with
      | (.error error, fs) => (.error error, fs)
      | (.ok (), fs) =>
        match saveMetadata fault (key.file baseDir .metadata) (key.file baseDir .state)
            snapshot.metadata fs with
        | (.error error, fs) => (.error error, fs)
        | (.ok (), fs) => (.ok (key.file baseDir .metadata, key.file baseDir .state), fs) := by
  obtain ⟨selector, selected, rfl⟩ := Option.map_eq_some_iff.mp named
  have nonempty : ¬ snapshot.convStates = [] := storable.1
  have valid : ¬ (validateStateTensors snapshot.convStates snapshot.temporalStates
      (some snapshot.metadata.conversationId) false).isValid = false := by
    simp [storable.2]
  rw [saveSnapshot, if_neg nonempty, if_neg valid]
  have paths := getSnapshotPaths_eq baseDir selected accepted fs
  generalize getSnapshotPaths baseDir snapshot.metadata.conversationId
    (some snapshot.metadata.turnNumber) snapshot.metadata.branchName fs = found at paths ⊢
  subst paths
  rfl

theorem saveSnapshot_ok (baseDir : Path) (storable : snapshot.Storable) {key : SnapshotKey}
    (named : snapshot.key = some key) (accepted : key.Accepted) (fs : FileSystem (Content τ)) :
    (saveSnapshot baseDir none snapshot.convStates snapshot.temporalStates snapshot.metadata fs).1 =
      .ok (key.file baseDir .metadata, key.file baseDir .state) := by
  rw [saveSnapshot_eq none storable named accepted]
  rfl

theorem saveSnapshot_cases (baseDir : Path) (fault : Option SaveFault)
    (snapshot : StoredSnapshot τ) (fs : FileSystem (Content τ)) :
    (snapshot.Storable ∧ ∃ key, snapshot.key = some key ∧ key.Accepted) ∨
    ∃ error fs', saveSnapshot baseDir fault snapshot.convStates snapshot.temporalStates
        snapshot.metadata fs = (.error error, fs') ∧
      Opened baseDir snapshot.metadata.conversationId fs fs' := by
  by_cases empty : snapshot.convStates = []
  · exact .inr ⟨_, fs, by rw [saveSnapshot, if_pos empty], .refl fs⟩
  by_cases invalid : (validateStateTensors snapshot.convStates snapshot.temporalStates
      (some snapshot.metadata.conversationId) false).isValid = false
  · exact .inr ⟨_, fs, by rw [saveSnapshot, if_neg empty, if_pos invalid], .refl fs⟩
  have opens := getSnapshotPaths_opened baseDir snapshot.metadata.conversationId
    (some snapshot.metadata.turnNumber) snapshot.metadata.branchName fs
  rcases getSnapshotPaths_cases baseDir snapshot.metadata.conversationId
      (some snapshot.metadata.turnNumber) snapshot.metadata.branchName fs with
    ⟨selector, selected, accepted⟩ | ⟨error, refused⟩
  · refine .inl ⟨⟨empty, by simpa using invalid⟩, ⟨_, selector⟩, ?_, accepted⟩
    simp [StoredSnapshot.key, keyOf, selected]
  obtain ⟨fs', paths⟩ : ∃ fs', getSnapshotPaths baseDir snapshot.metadata.conversationId
      (some snapshot.metadata.turnNumber) snapshot.metadata.branchName fs =
      (.error error, fs') := by
    rcases refused with paths | ⟨-, paths⟩
    · exact ⟨_, paths⟩
    · exact ⟨_, paths⟩
  rw [paths] at opens
  exact .inr ⟨error, fs', by rw [saveSnapshot, if_neg empty, if_neg invalid, paths], opens⟩

structure OnDisk (baseDir : Path) (fs : FileSystem (Content τ))
    (store : SnapshotKey → Option (StoredSnapshot τ)) : Prop where
  tidy : Tidy baseDir fs
  refines : Refines baseDir fs store
  named : ∀ key snapshot, store key = some snapshot → snapshot.key = some key

namespace OnDisk

variable {cid : String} {fs fs' : FileSystem (Content τ)} {store : SnapshotKey → Option (StoredSnapshot τ)}

theorem empty : OnDisk baseDir (FileSystem.empty : FileSystem (Content τ)) (fun _ => none) where
  tidy := .empty
  refines := empty_refines baseDir
  named := nofun

theorem opened (onDisk : OnDisk baseDir fs store) (opens : Opened baseDir cid fs fs') :
    OnDisk baseDir fs' store where
  tidy := onDisk.tidy.opened opens
  refines :=
    ⟨fun key => (onDisk.refines.represents key).frame opens.read?, onDisk.refines.storable⟩
  named := onDisk.named

theorem metadata_mem_files (onDisk : OnDisk baseDir fs store) {key : SnapshotKey} :
    key.file baseDir .metadata ∈ fs.files ↔ (store key).isSome = true := by
  rw [← FileSystem.isFile_iff_mem, FileSystem.isFile, (onDisk.refines.represents key).metadata,
    Option.isSome_map]

theorem hasSnapshot_iff (onDisk : OnDisk baseDir fs store) {key : SnapshotKey} :
    HasSnapshot baseDir fs key ↔ (store key).isSome = true :=
  FileSystem.isFile_iff_mem.trans onDisk.metadata_mem_files

theorem conversationDir_mem (onDisk : OnDisk baseDir fs store) {key : SnapshotKey}
    (stored : (store key).isSome = true) :
    conversationDir baseDir key.conversationId ∈ fs.dirs := by
  obtain ⟨owner, kind, -, isFile, convDir, -⟩ :=
    onDisk.tidy.files _ (onDisk.metadata_mem_files.mpr stored)
  obtain ⟨rfl, -⟩ := file_injective isFile
  exact convDir

theorem accepted (onDisk : OnDisk baseDir fs store) {key : SnapshotKey}
    (stored : (store key).isSome = true) : key.Accepted :=
  onDisk.tidy.accepted (onDisk.metadata_mem_files.mpr stored)

theorem turnNumber_eq (onDisk : OnDisk baseDir fs store) {turn : Int}
    (stored : store ⟨cid, .turn turn⟩ = some snapshot) :
    snapshot.metadata.turnNumber = turn := by
  obtain ⟨selector, selected, same⟩ := Option.map_eq_some_iff.mp (onDisk.named _ _ stored)
  cases same
  exact Option.some.inj (turnNumber_of_selectorOf selected)

/-- A save either raises before any file is touched, or replaces what is stored under the
    key of its metadata. -/
theorem save (onDisk : OnDisk baseDir fs store) (snapshot : StoredSnapshot τ) :
    (∃ error fs', saveSnapshot baseDir none snapshot.convStates snapshot.temporalStates
        snapshot.metadata fs = (.error error, fs') ∧ OnDisk baseDir fs' store) ∨
    ∃ paths fs' key, saveSnapshot baseDir none snapshot.convStates snapshot.temporalStates
        snapshot.metadata fs = (.ok paths, fs') ∧
      snapshot.key = some key ∧ key.Accepted ∧ snapshot.Storable ∧
      OnDisk baseDir fs' (Function.update store key (some snapshot)) := by
  rcases saveSnapshot_cases baseDir none snapshot fs with
    ⟨storable, saved, named, accepted⟩ | ⟨error, fs', refused, opens⟩
  · right
    have written := saveSnapshot_ok baseDir storable named accepted fs
    have convDir : conversationDir baseDir saved.conversationId ∈
        (saved.makeDirs baseDir fs).dirs :=
      FileSystem.mem_dirs_mkdir.mpr (.inr (FileSystem.mem_dirs_mkdir.mpr (.inl rfl)))
    have dir : saved.dir baseDir ∈ (saved.makeDirs baseDir fs).dirs :=
      FileSystem.mem_dirs_mkdir.mpr (.inl rfl)
    -- two temporary files are written and renamed, and each is laid out for the key
    have tidyAfter : Tidy baseDir (saveSnapshot baseDir none snapshot.convStates
        snapshot.temporalStates snapshot.metadata fs).2 := by
      have opens : Opened baseDir saved.conversationId fs (saved.makeDirs baseDir fs) :=
        .makeDirs accepted fs
      rw [saveSnapshot_eq none storable named accepted]
      simp only [saveState, saveMetadata, pathWithSuffix_state, pathWithSuffix_metadata]
      refine ((((onDisk.tidy.opened opens).write accepted convDir dir .stateTemp _).rename _
        accepted convDir dir .state).write accepted ?_ ?_ .metadataTemp _).rename _ accepted ?_ ?_
          .metadata
      all_goals simp [convDir, dir]
    have saves : (StoreCall.save snapshot.convStates snapshot.temporalStates
        snapshot.metadata).Accepted := ⟨⟨saved, named, accepted⟩, storable⟩
    have refines := run_refines onDisk.refines saves
    rw [save_apply snapshot named] at refines
    refine ⟨_, _, saved, Prod.ext written rfl, named, accepted, storable, tidyAfter, refines, ?_⟩
    intro key stored isStored
    rw [Function.update_apply] at isStored
    split at isStored
    · next same =>
      cases isStored
      rw [same]
      exact named
    · exact onDisk.named key stored isStored
  · exact .inl ⟨error, fs', refused, onDisk.opened opens⟩

theorem delete (onDisk : OnDisk baseDir fs store) {key : SnapshotKey}
    (named : keyOf cid turnNumber branchName = some key) (accepted : key.Accepted) :
    ∃ fs', deleteSnapshot baseDir cid turnNumber branchName fs =
        (.ok (store key).isSome, fs') ∧
      OnDisk baseDir fs' (Function.update store key none) := by
  have deletes : (StoreCall.delete cid turnNumber branchName : StoreCall τ).Accepted :=
    ⟨⟨key, named, accepted⟩, trivial⟩
  have refines := run_refines onDisk.refines deletes
  rw [delete_apply named] at refines
  obtain ⟨selector, selected, rfl⟩ := Option.map_eq_some_iff.mp named
  have paths := getSnapshotPaths_eq baseDir selected accepted fs
  have opens : Opened baseDir cid fs
      (SnapshotKey.makeDirs baseDir ⟨cid, selector⟩ fs) := .makeDirs accepted fs
  have represents := onDisk.refines.represents ⟨cid, selector⟩
  have answer : (deleteSnapshot baseDir cid turnNumber branchName fs).1 =
      .ok (store ⟨cid, selector⟩).isSome := by
    simp only [deleteSnapshot, paths, FileSystem.isFile, opens.read?, represents.metadata,
      represents.state, Option.isSome_map, Bool.or_self]
  have tidyAfter : Tidy baseDir (deleteSnapshot baseDir cid turnNumber branchName fs).2 := by
    simp only [deleteSnapshot, paths]
    exact ((onDisk.tidy.opened opens).unlink _).unlink _
  refine ⟨_, Prod.ext answer rfl, tidyAfter, refines, ?_⟩
  intro other stored isStored
  rw [Function.update_apply] at isStored
  split at isStored
  · cases isStored
  · exact onDisk.named other stored isStored

theorem load (onDisk : OnDisk baseDir fs store) {key : SnapshotKey}
    (named : keyOf cid turnNumber branchName = some key) (accepted : key.Accepted) :
    ∃ fs', loadSnapshot baseDir cid turnNumber branchName fs =
        (loadAnswer baseDir key (store key), fs') ∧ OnDisk baseDir fs' store := by
  have answer := loadSnapshot_answer named accepted (onDisk.refines.represents key)
    (onDisk.refines.storable key)
  exact ⟨_, Prod.ext answer rfl,
    onDisk.opened (loadSnapshot_opened baseDir cid turnNumber branchName fs)⟩

/-- A load, whatever its arguments: the stored snapshot, or an exception where nothing is
    stored under a key that they name. -/
theorem load_cases (onDisk : OnDisk baseDir fs store) (cid : String)
    (turnNumber : Option Int) (branchName : Option String) :
    ∃ fs', OnDisk baseDir fs' store ∧
      ((∃ key snapshot, keyOf cid turnNumber branchName = some key ∧
          store key = some snapshot ∧
          loadSnapshot baseDir cid turnNumber branchName fs = (.ok snapshot, fs')) ∨
        ∃ error, loadSnapshot baseDir cid turnNumber branchName fs =
            (.error error, fs') ∧
          ∀ key, keyOf cid turnNumber branchName = some key → store key = none) := by
  rcases getSnapshotPaths_cases baseDir cid turnNumber branchName fs with
    ⟨selector, selected, accepted⟩ | ⟨error, refused⟩
  · have named : keyOf cid turnNumber branchName = some ⟨cid, selector⟩ := by
      simp [keyOf, selected]
    obtain ⟨fs', loaded, onDisk'⟩ := onDisk.load named accepted
    refine ⟨fs', onDisk', ?_⟩
    cases stored : store ⟨cid, selector⟩ with
    | some snapshot =>
      rw [stored] at loaded
      exact .inl ⟨_, snapshot, named, stored, loaded⟩
    | none =>
      rw [stored] at loaded
      refine .inr ⟨_, loaded, ?_⟩
      intro key same
      rw [named] at same
      cases same
      exact stored
  · have opens := loadSnapshot_opened baseDir cid turnNumber branchName fs
    obtain ⟨fs', paths⟩ : ∃ fs', getSnapshotPaths baseDir cid turnNumber branchName fs =
        (.error error, fs') := by
      rcases refused with paths | ⟨-, paths⟩
      · exact ⟨_, paths⟩
      · exact ⟨_, paths⟩
    have loaded : loadSnapshot baseDir cid turnNumber branchName fs =
        (.error error, fs') := by
      rw [loadSnapshot, paths]
    rw [loaded] at opens
    refine ⟨fs', onDisk.opened opens, .inr ⟨error, loaded, ?_⟩⟩
    -- a stored key would have been given its paths
    intro key named
    by_contra stored
    have accepted := onDisk.accepted (Option.isSome_iff_ne_none.mpr stored)
    obtain ⟨selector, selected, rfl⟩ := Option.map_eq_some_iff.mp named
    rw [getSnapshotPaths_eq baseDir selected accepted] at paths
    cases paths

theorem load_toOption (onDisk : OnDisk baseDir fs store) (cid : String)
    (turnNumber : Option Int) (branchName : Option String) :
    (loadSnapshot baseDir cid turnNumber branchName fs).1.toOption =
      (keyOf cid turnNumber branchName).bind store := by
  obtain ⟨fs', -, ⟨key, snapshot, named, stored, loaded⟩ | ⟨error, refused, nothing⟩⟩ :=
    onDisk.load_cases cid turnNumber branchName
  · rw [loaded, named]
    exact stored.symm
  · rw [refused]
    exact (Option.bind_eq_none_iff.mpr nothing).symm

theorem load_eq_ok_iff (onDisk : OnDisk baseDir fs store) {key : SnapshotKey}
    (named : keyOf cid turnNumber branchName = some key) :
    (loadSnapshot baseDir cid turnNumber branchName fs).1 = .ok snapshot ↔
      store key = some snapshot := by
  obtain ⟨fs', -, ⟨key', stored, named', isStored, loaded⟩ | ⟨error, refused, nothing⟩⟩ :=
    onDisk.load_cases cid turnNumber branchName
  · cases named.symm.trans named'
    rw [loaded, isStored]
    simp
  · rw [refused, nothing key named]
    simp

theorem createBranch (onDisk : OnDisk baseDir fs store) {branchName : String} {turn : Int}
    {now : Nat} {source : StoredSnapshot τ} (stored : store ⟨cid, .turn turn⟩ = some source)
    (created : (Snapshot.createBranch baseDir cid branchName (some turn) now fs).1 =
      .ok true) :
    ∃ key, keyOf cid (some source.metadata.turnNumber) (some branchName) = some key ∧
      OnDisk baseDir (Snapshot.createBranch baseDir cid branchName (some turn) now fs).2
        (Function.update store key (some { source with
          metadata := branchMetadata cid branchName turn now source.metadata })) := by
  have opens := loadSnapshot_opened baseDir cid (some turn) none fs
  have answer : (loadSnapshot baseDir cid (some turn) none fs).1 = .ok source :=
    (onDisk.load_eq_ok_iff rfl).mpr stored
  have loaded : loadSnapshot baseDir cid (some turn) none fs =
      (.ok source, (loadSnapshot baseDir cid (some turn) none fs).2) :=
    Prod.ext answer rfl
  have branched := (onDisk.opened opens).save { source with
    metadata := branchMetadata cid branchName turn now source.metadata }
  rw [Snapshot.createBranch, branchFrom, loaded] at created ⊢
  rcases branched with ⟨error, fs', refused, -⟩ | ⟨paths, fs', key, saved, named, -, -, onDisk'⟩
  · simp only [refused] at created
    cases created
  · simp only [saved]
    exact ⟨key, named, onDisk'⟩

end OnDisk

end Engram.Snapshot
