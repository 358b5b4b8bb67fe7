import Engram.Snapshot.Directory

/-!
# What the listings show

On a tidy disk `list_snapshots` shows exactly the stored turns. `list_branches` shows the
stored branches as long as no branch name contains `_metadata`, and `list_conversations`
shows the conversations that have a directory as long as no id contains `conversation_`.
-/

namespace Engram.Snapshot

open Lib List

variable {τ : Type} {baseDir : Path} {turn : Int} {name cid : String}

/-! ### Sorting -/

theorem insertionSort_pairwise_lt {α : Type} [LinearOrder α] {entries : List α}
    (nodup : entries.Nodup) : (entries.insertionSort (· ≤ ·)).Pairwise (· < ·) := by
  have ordered : (entries.insertionSort (· ≤ ·)).Pairwise (· ≤ ·) :=
    pairwise_insertionSort _ _
  have distinct : (entries.insertionSort (· ≤ ·)).Nodup :=
    (perm_insertionSort _ entries).nodup_iff.mpr nodup
  exact (ordered.and distinct).imp (fun both => lt_of_le_of_ne both.1 both.2)

theorem mem_sortedNames {names : List String} :
    name ∈ sortedNames names ↔ name ∈ names :=
  mem_insertionSort _

theorem nodup_filterMap_of_mem {α β : Type} {f : α → Option β} {names : List α}
    (nodup : names.Nodup)
    (injective : ∀ a ∈ names, ∀ a' ∈ names, ∀ b, f a = some b → f a' = some b → a = a') :
    (names.filterMap f).Nodup := by
  rw [List.Nodup, pairwise_filterMap]
  refine nodup.imp_of_mem ?_
  intro a a' member member' different b found b' found' same
  exact different (injective a member a' member' b found (same ▸ found'))

/-! ### Entries of a tidy directory -/

theorem pathSuffix_ending (stem : String) (kind : FileKind) :
    pathSuffix (stem ++ kind.ending) = ".json" ↔ kind = .metadata := by
  have suffix : ∀ front extension : String, front ≠ "" → extension ≠ "" →
      '.' ∉ extension.toList → stem ++ kind.ending = front ++ "." ++ extension →
      pathSuffix (stem ++ kind.ending) = "." ++ extension := by
    intro front extension nonempty proper dotless shape
    rw [shape, pathSuffix, splitExtension_append front extension nonempty proper dotless]
    rfl
  cases kind with
  | metadata => simp [FileKind.ending, pathSuffix_metadata]
  | state =>
    rw [suffix (stem ++ "_state") "safetensors" (by simp) (by decide) (by decide)
      (by simp [FileKind.ending, String.append_assoc])]
    simp
  | metadataTemp =>
    rw [suffix (stem ++ "_metadata.json") "tmp" (by simp) (by decide) (by decide)
      (by simp [FileKind.ending, String.append_assoc])]
    simp
  | stateTemp =>
    rw [suffix (stem ++ "_state.safetensors") "tmp" (by simp) (by decide) (by decide)
      (by simp [FileKind.ending, String.append_assoc])]
    simp

theorem file_in_conversationDir {key : SnapshotKey} {kind : FileKind}
    (child : conversationDir baseDir cid ++ [name] = key.file baseDir kind) :
    ∃ turn, key = ⟨cid, .turn turn⟩ ∧
      name = "turn_" ++ toString turn ++ kind.ending := by
  obtain ⟨owner, selector⟩ := key
  cases selector with
  | turn turn =>
    simp only [SnapshotKey.file, SnapshotKey.dir, conversationDir, append_assoc,
      append_cancel_left_eq, cons_append, cons.injEq, and_true, String.append_right_inj] at child
    obtain ⟨rfl, rfl⟩ := child
    exact ⟨turn, rfl, rfl⟩
  | branch branch =>
    have lengths := congrArg length child
    simp [SnapshotKey.file, SnapshotKey.dir, conversationDir] at lengths

theorem file_in_branchDir {key : SnapshotKey} {kind : FileKind}
    (child : conversationDir baseDir cid ++ ["branches"] ++ [name] =
      key.file baseDir kind) :
    ∃ branch, key = ⟨cid, .branch branch⟩ ∧ name = branch ++ kind.ending := by
  obtain ⟨owner, selector⟩ := key
  cases selector with
  | turn turn =>
    have lengths := congrArg length child
    simp [SnapshotKey.file, SnapshotKey.dir, conversationDir] at lengths
  | branch branch =>
    simp only [SnapshotKey.file, SnapshotKey.dir, conversationDir, append_assoc,
      append_cancel_left_eq, cons_append, cons.injEq,
      and_true, true_and, String.append_right_inj] at child
    obtain ⟨rfl, rfl⟩ := child
    exact ⟨branch, rfl, rfl⟩

theorem dir_in_baseDir {γ : Type} {fs : FileSystem γ} (tidy : Tidy baseDir fs)
    (child : baseDir ++ [name] ∈ fs.dirs) :
    ∃ cid, Sanitized cid ∧ name = "conversation_" ++ cid := by
  obtain ⟨cid, sanitized, isDir | isBranchDir⟩ := tidy.dirs _ child
  · refine ⟨cid, sanitized, ?_⟩
    simpa [conversationDir] using isDir
  · have lengths := congrArg length isBranchDir
    simp [conversationDir] at lengths

/-! ### Turns -/

variable [Torch τ] {fs : FileSystem (Content τ)} {store : SnapshotKey → Option (StoredSnapshot τ)}
  {snapshot : StoredSnapshot τ}

/-- A file name of a conversation directory stands for a turn only if it is the metadata
    file of that turn. -/
theorem OnDisk.turnOfName_eq_some (onDisk : OnDisk baseDir fs store)
    (present : conversationDir baseDir cid ++ [name] ∈ fs.files)
    (read : turnOfName name = some turn) :
    name = "turn_" ++ toString turn ++ "_metadata.json" ∧
      (store ⟨cid, .turn turn⟩).isSome = true := by
  obtain ⟨key, kind, accepted, isFile, -⟩ := onDisk.tidy.files _ present
  obtain ⟨stored, rfl, rfl⟩ := file_in_conversationDir isFile
  have isMetadata : kind = .metadata := by
    unfold turnOfName at read
    split at read
    · next guard => exact (pathSuffix_ending _ kind).mp guard.2
    · cases read
  subst isMetadata
  have same : stored = turn := by
    rw [FileKind.ending, turnOfName_metadata accepted.2] at read
    exact Option.some.inj read
  subst same
  refine ⟨rfl, onDisk.metadata_mem_files.mp ?_⟩
  exact present

def shownTurnsBelow {γ : Type} (baseDir : Path) (fs : FileSystem γ) (conversationId : String)
    (bound : Int) : Bool :=
  0 ≤ bound && (fs.fileNames (conversationDir baseDir conversationId)).all (fun name =>
    (turnOfName name).all (fun turn => turn ≤ bound))

omit [Torch τ] in
theorem turn_le_of_shown {bound : Int} (shown : shownTurnsBelow baseDir fs cid bound = true)
    (stored : HasSnapshot baseDir fs ⟨cid, .turn turn⟩) : turn ≤ bound := by
  simp only [shownTurnsBelow, Bool.and_eq_true, decide_eq_true_eq, all_eq_true] at shown
  obtain ⟨positive, names⟩ := shown
  rcases lt_or_ge turn 0 with negative | nonnegative
  · omega
  · have listed := names ("turn_" ++ toString turn ++ "_metadata.json")
      (FileSystem.mem_fileNames.mpr (FileSystem.isFile_iff_mem.mp stored))
    rw [turnOfName_metadata nonnegative] at listed
    simpa using listed

theorem OnDisk.listSnapshots (onDisk : OnDisk baseDir fs store) (sanitized : Sanitized cid) :
    ∃ turns fs', listSnapshots baseDir cid fs = (.ok turns, fs') ∧
      OnDisk baseDir fs' store ∧ turns.Pairwise (· < ·) ∧
      ∀ turn, turn ∈ turns ↔ (store ⟨cid, .turn turn⟩).isSome = true := by
  have convDir := getConversationDir_ok baseDir sanitized fs
  have onDisk' : OnDisk baseDir (fs.mkdir (conversationDir baseDir cid)) store :=
    onDisk.opened (.mkdir sanitized (.inl rfl) fs)
  refine ⟨_, _, by rw [Snapshot.listSnapshots, convDir], onDisk', ?_, ?_⟩
  · refine insertionSort_pairwise_lt (nodup_filterMap_of_mem (FileSystem.nodup_fileNames ..) ?_)
    intro name member name' member' turn read read'
    have first := onDisk'.turnOfName_eq_some (FileSystem.mem_fileNames.mp member) read
    have second := onDisk'.turnOfName_eq_some (FileSystem.mem_fileNames.mp member') read'
    rw [first.1, second.1]
  intro turn
  rw [sortedTurns, mem_insertionSort, mem_filterMap]
  constructor
  · rintro ⟨name, member, read⟩
    exact (onDisk'.turnOfName_eq_some (FileSystem.mem_fileNames.mp member) read).2
  · intro stored
    have nonnegative : 0 ≤ turn := (onDisk.accepted stored).2
    exact ⟨_, FileSystem.mem_fileNames.mpr (onDisk'.metadata_mem_files.mpr stored),
      turnOfName_metadata nonnegative⟩

def IsLatest (store : SnapshotKey → Option (StoredSnapshot τ)) (conversationId : String)
    (turn : Int) (snapshot : StoredSnapshot τ) : Prop :=
  store ⟨conversationId, .turn turn⟩ = some snapshot ∧
    ∀ other, (store ⟨conversationId, .turn other⟩).isSome = true → other ≤ turn

theorem OnDisk.getLatestSnapshot (onDisk : OnDisk baseDir fs store) (sanitized : Sanitized cid) :
    ∃ fs', OnDisk baseDir fs' store ∧
      ((∀ turn, store ⟨cid, .turn turn⟩ = none) ∧
          getLatestSnapshot baseDir cid fs = (.ok none, fs') ∨
        ∃ turn snapshot, IsLatest store cid turn snapshot ∧
          getLatestSnapshot baseDir cid fs =
            (.ok (some (turn, snapshot.metadata)), fs')) := by
  obtain ⟨turns, fs₁, listed, onDisk₁, ordered, listedIff⟩ := onDisk.listSnapshots sanitized
  unfold Snapshot.getLatestSnapshot
  rw [listed]
  cases found : turns.getLast? with
  | none =>
    refine ⟨fs₁, onDisk₁, .inl ⟨?_, by simp only [found]⟩⟩
    intro turn
    rw [getLast?_eq_none_iff] at found
    have absent := (listedIff turn).mpr.mt (by simp [found])
    simpa using absent
  | some turn =>
    -- the turns are listed in ascending order
    obtain ⟨front, shape⟩ := getLast?_eq_some_iff.mp found
    have stored : (store ⟨cid, .turn turn⟩).isSome = true :=
      (listedIff turn).mp (by simp [shape])
    obtain ⟨snapshot, isStored⟩ := Option.isSome_iff_exists.mp stored
    have accepted := onDisk.accepted stored
    have opens : Opened baseDir cid fs₁
        (SnapshotKey.makeDirs baseDir ⟨cid, .turn turn⟩ fs₁) := .makeDirs accepted fs₁
    have paths : getSnapshotPaths baseDir cid (some turn) none fs₁ = _ :=
      getSnapshotPaths_eq baseDir rfl accepted fs₁
    have content := ((onDisk₁.opened opens).refines.represents ⟨cid, .turn turn⟩).metadata
    refine ⟨_, onDisk₁.opened opens, .inr ⟨turn, snapshot, ⟨isStored, ?_⟩, ?_⟩⟩
    · intro other otherStored
      have member := (listedIff other).mpr otherStored
      rw [shape, mem_append, mem_singleton] at member
      rw [shape, pairwise_append] at ordered
      rcases member with before | same
      · exact le_of_lt (ordered.2.2 other before turn (by simp))
      · exact le_of_eq same
    · simp only [found, paths, content, isStored, Option.map_some]

omit [Torch τ] in
theorem IsLatest.congr {store' : SnapshotKey → Option (StoredSnapshot τ)}
    (latest : IsLatest store cid turn snapshot)
    (same : ∀ number, store' ⟨cid, .turn number⟩ = store ⟨cid, .turn number⟩) :
    IsLatest store' cid turn snapshot := by
  refine ⟨(same turn).trans latest.1, ?_⟩
  intro other stored
  rw [same] at stored
  exact latest.2 other stored

omit [Torch τ] in
theorem IsLatest.unique {turn' : Int} {snapshot' : StoredSnapshot τ}
    (latest : IsLatest store cid turn snapshot) (latest' : IsLatest store cid turn' snapshot') :
    turn = turn' ∧ snapshot = snapshot' := by
  have same : turn = turn' := by
    apply le_antisymm
    · exact latest'.2 turn (by rw [latest.1]; rfl)
    · exact latest.2 turn' (by rw [latest'.1]; rfl)
  subst same
  exact ⟨rfl, Option.some.inj (latest.1.symm.trans latest'.1)⟩

theorem OnDisk.getLatestSnapshot_of_isLatest (onDisk : OnDisk baseDir fs store)
    (latest : IsLatest store cid turn snapshot) :
    ∃ fs', Snapshot.getLatestSnapshot baseDir cid fs =
        (.ok (some (turn, snapshot.metadata)), fs') ∧ OnDisk baseDir fs' store := by
  have stored : (store ⟨cid, .turn turn⟩).isSome = true := by
    rw [latest.1]
    rfl
  have sanitized : Sanitized cid := (onDisk.accepted stored).1
  obtain ⟨fs', onDisk', ⟨nothing, -⟩ | ⟨turn', snapshot', latest', answer⟩⟩ :=
    onDisk.getLatestSnapshot sanitized
  · cases (nothing turn).symm.trans latest.1
  · obtain ⟨rfl, rfl⟩ := latest.unique latest'
    exact ⟨fs', answer, onDisk'⟩

theorem OnDisk.getLatestSnapshot_cases (onDisk : OnDisk baseDir fs store) (cid : String) :
    (∃ turn snapshot fs', IsLatest store cid turn snapshot ∧
      Snapshot.getLatestSnapshot baseDir cid fs =
        (.ok (some (turn, snapshot.metadata)), fs')) ∨
    (∀ turn, store ⟨cid, .turn turn⟩ = none) ∧
      ∃ fs', Snapshot.getLatestSnapshot baseDir cid fs = (.ok none, fs') ∨
        ∃ error, Snapshot.getLatestSnapshot baseDir cid fs = (.error error, fs') := by
  rcases getConversationDir_cases baseDir cid fs with sanitized | ⟨error, refused⟩
  · obtain ⟨fs', -, ⟨nothing, answer⟩ | ⟨turn, snapshot, latest, answer⟩⟩ :=
      onDisk.getLatestSnapshot sanitized
    · exact .inr ⟨nothing, fs', .inl answer⟩
    · exact .inl ⟨turn, snapshot, fs', latest, answer⟩
  refine .inr ⟨?_, fs, .inr ⟨error, ?_⟩⟩
  · intro turn
    by_contra stored
    have sanitized : Sanitized cid :=
      (onDisk.accepted (Option.isSome_iff_ne_none.mpr stored)).1
    rw [getConversationDir_ok baseDir sanitized] at refused
    cases refused
  · simp only [Snapshot.getLatestSnapshot, Snapshot.listSnapshots, refused]

/-! ### Branches -/

def PlainBranches (store : SnapshotKey → Option (StoredSnapshot τ)) (conversationId : String) :
    Prop :=
  ∀ branch, (store ⟨conversationId, .branch branch⟩).isSome = true →
    containsMarker "_metadata" branch = false

theorem OnDisk.branchOfName_eq_some (onDisk : OnDisk baseDir fs store)
    (plain : PlainBranches store cid)
    (present : conversationDir baseDir cid ++ ["branches"] ++ [name] ∈ fs.files) {branch : String}
    (read : branchOfName name = some branch) :
    name = branch ++ "_metadata.json" ∧
      (store ⟨cid, .branch branch⟩).isSome = true := by
  obtain ⟨key, kind, -, isFile, -⟩ := onDisk.tidy.files _ present
  obtain ⟨owner, rfl, rfl⟩ := file_in_branchDir isFile
  have isMetadata : kind = .metadata := by
    unfold branchOfName at read
    split at read
    · next guard => exact (pathSuffix_ending _ kind).mp guard
    · cases read
  subst isMetadata
  have stored : (store ⟨cid, .branch owner⟩).isSome = true := by
    refine onDisk.metadata_mem_files.mp ?_
    exact present
  have same : owner = branch := by
    rw [FileKind.ending, branchOfName_metadata (plain owner stored)] at read
    exact Option.some.inj read
  subst same
  exact ⟨rfl, stored⟩

theorem OnDisk.listBranches (onDisk : OnDisk baseDir fs store) (sanitized : Sanitized cid)
    (plain : PlainBranches store cid) :
    ∃ branches fs', listBranches baseDir cid fs = (.ok branches, fs') ∧
      OnDisk baseDir fs' store ∧ branches.Pairwise (· < ·) ∧
      ∀ branch, branch ∈ branches ↔ (store ⟨cid, .branch branch⟩).isSome = true := by
  have convDir := getConversationDir_ok baseDir sanitized fs
  have onDisk' : OnDisk baseDir (fs.mkdir (conversationDir baseDir cid)) store :=
    onDisk.opened (.mkdir sanitized (.inl rfl) fs)
  unfold Snapshot.listBranches
  simp only [convDir]
  split
  · next noDir =>
    refine ⟨[], _, rfl, onDisk', List.Pairwise.nil, ?_⟩
    intro branch
    simp only [not_mem_nil, false_iff]
    intro stored
    -- a stored branch would lie in the missing directory
    obtain ⟨key, kind, -, isFile, -, dir⟩ :=
      onDisk'.tidy.files _ (onDisk'.metadata_mem_files.mpr stored)
    obtain ⟨rfl, -⟩ := file_injective isFile
    exact noDir dir
  refine ⟨_, _, rfl, onDisk', ?_, ?_⟩
  · refine insertionSort_pairwise_lt (nodup_filterMap_of_mem (FileSystem.nodup_fileNames ..) ?_)
    intro name member name' member' branch read read'
    have first := onDisk'.branchOfName_eq_some plain (FileSystem.mem_fileNames.mp member) read
    have second := onDisk'.branchOfName_eq_some plain (FileSystem.mem_fileNames.mp member') read'
    rw [first.1, second.1]
  intro branch
  rw [mem_sortedNames, mem_filterMap]
  constructor
  · rintro ⟨name, member, read⟩
    exact (onDisk'.branchOfName_eq_some plain (FileSystem.mem_fileNames.mp member) read).2
  · intro stored
    exact ⟨_, FileSystem.mem_fileNames.mpr (onDisk'.metadata_mem_files.mpr stored),
      branchOfName_metadata (plain branch stored)⟩

/-! ### Conversations -/

/-- The ids of all conversation directories are free of the word `conversation_`. -/
def PlainIds {γ : Type} (baseDir : Path) (fs : FileSystem γ) : Prop :=
  ∀ conversationId, conversationDir baseDir conversationId ∈ fs.dirs →
    containsMarker "conversation_" conversationId = false

omit [Torch τ] in
theorem Tidy.conversationOfName_eq_some (tidy : Tidy baseDir fs) (plain : PlainIds baseDir fs)
    (present : baseDir ++ [name] ∈ fs.dirs) (read : conversationOfName name = some cid) :
    name = "conversation_" ++ cid ∧
      conversationDir baseDir cid ∈ fs.dirs := by
  obtain ⟨owner, -, rfl⟩ := dir_in_baseDir tidy present
  rw [conversationOfName_eq (plain owner present)] at read
  cases read
  exact ⟨rfl, present⟩

omit [Torch τ] in
theorem Tidy.mem_listConversations (tidy : Tidy baseDir fs) (plain : PlainIds baseDir fs) :
    cid ∈ listConversations baseDir fs ↔
      conversationDir baseDir cid ∈ fs.dirs := by
  rw [listConversations, mem_sortedNames, mem_filterMap]
  constructor
  · rintro ⟨name, member, read⟩
    exact (tidy.conversationOfName_eq_some plain (FileSystem.mem_subdirs.mp member) read).2
  · intro present
    exact ⟨_, FileSystem.mem_subdirs.mpr present, conversationOfName_eq (plain _ present)⟩

omit [Torch τ] in
theorem Tidy.listConversations_ordered (tidy : Tidy baseDir fs) (plain : PlainIds baseDir fs) :
    (listConversations baseDir fs).Pairwise (· < ·) := by
  refine insertionSort_pairwise_lt
    (nodup_filterMap_of_mem (FileSystem.nodup_subdirs tidy.dirsNodup baseDir) ?_)
  intro name member name' member' cid read read'
  have first := tidy.conversationOfName_eq_some plain (FileSystem.mem_subdirs.mp member) read
  have second := tidy.conversationOfName_eq_some plain (FileSystem.mem_subdirs.mp member') read'
  rw [first.1, second.1]

end Engram.Snapshot
