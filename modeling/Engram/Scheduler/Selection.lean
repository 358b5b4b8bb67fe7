import Engram.Scheduler.Handlers
import Engram.Tier.Effects

/-!
# What a restore request selects

`handle_restore_snapshot` has three paths, and each looks for the snapshot in its own way: the
path that creates a request asks for the latest turn when none is given, the staging path asks the
warm tier first, and the path for a live request asks the disk only. So they disagree without a
selector (`selectorless_restore_not_latest`), and on a branch as soon as the source has token ids
(`branch_as_restorable_iff`).
-/

namespace Engram.Scheduler

open Lib Restore Snapshot Tier

variable {τ : Type}

/-! ### The store behind the handlers -/

def LoadedSnapshot.ofStored (snapshot : StoredSnapshot τ) : LoadedSnapshot τ where
  convStates := snapshot.convStates
  temporalStates := snapshot.temporalStates
  modelName := some snapshot.metadata.modelName
  fillIds := snapshot.metadata.fillIds
  tokenCount := snapshot.metadata.tokenCount

def LoadedSnapshot.ofRestored (restored : Tier.Restored τ) : LoadedSnapshot τ where
  convStates := restored.convStates
  temporalStates := restored.temporalStates
  modelName := restored.metadata.modelName
  fillIds := restored.metadata.fillIds
  tokenCount := restored.metadata.tokenCount.getD 0

def LoadedSnapshot.withoutFillIds (snapshot : LoadedSnapshot τ) : LoadedSnapshot τ :=
  { snapshot with fillIds := none }

section Source

variable [Torch τ] (cfg : TierConfig) (hasTierManager : Bool) (now : Nat) (tiers : TierState τ)

def loadFromDisk (conversationId : String) (turnNumber : Option Int) (branchName : Option String) :
    Option (LoadedSnapshot τ) :=
  (loadSnapshot cfg.baseDir conversationId turnNumber branchName tiers.disk).1.toOption.map
    .ofStored

def loadSnapshotForPendingRestore (conversationId : String) (turnNumber : Option Int)
    (branchName : Option String) : Option (LoadedSnapshot τ) :=
  if hasTierManager && turnNumber.isNone && branchName.isNone &&
      tiers.hostPool.hasState conversationId then
    match (restoreFromWarmTier cfg conversationId now tiers).1 with
    | .error _ => none
    | .ok (some warm) => some (.ofRestored warm)
    | .ok none => loadFromDisk cfg tiers conversationId turnNumber branchName
  else loadFromDisk cfg tiers conversationId turnNumber branchName

/-- What the snapshot manager and, if there is one, the tier manager answer in `tiers`. -/
def snapshotSource : SnapshotSource τ where
  latestTurn := fun conversation => conversation.bind fun conversationId =>
    (getLatestSnapshot cfg.baseDir conversationId tiers.disk).1.toOption.join.map Prod.fst
  load := fun conversation turnNumber branchName => conversation.bind fun conversationId =>
    loadFromDisk cfg tiers conversationId turnNumber branchName
  loadForPending := fun conversation turnNumber branchName =>
    conversation.bind fun conversationId =>
      loadSnapshotForPendingRestore cfg hasTierManager now tiers conversationId turnNumber
        branchName

end Source

/-! ### The three paths -/

inductive RestorePath where
  | createNewRequest
  | stage
  | live (req : Req)

/-- The conversation a request is about: `effective_conv_id`. -/
def RestoreReq.conversation (recv : RestoreReq) : Key :=
  Key.or recv.conversationId recv.rid

def route (s : State τ) (recv : RestoreReq) : Option RestorePath :=
  if recv.createNewRequest then some .createNewRequest
  else
    match recv.rid with
    | none => some .stage
    | some rid =>
      if s.runningBatch.any (·.rid == rid) then none
      else
        match s.findIdle rid with
        | none => some .stage
        | some req => some (.live req)

def RestorePath.select (source : SnapshotSource τ) (recv : RestoreReq) :
    RestorePath → Option (LoadedSnapshot τ)
  | .createNewRequest =>
    (resolveTurn source recv recv.conversation).bind fun turn =>
      source.load recv.conversation turn recv.branchName
  | .stage => source.loadForPending recv.conversation recv.turnNumber recv.branchName
  | .live _ => source.load recv.conversation recv.turnNumber recv.branchName

/-- A request is accepted if it is answered with success, or later, when it has generated. -/
def Accepted : Option RestoreReply → Prop
  | none => True
  | some reply => reply.success = true

section Paths

variable [Torch τ]

def RestorePath.handle (cfg : Config) (s : State τ) (source : SnapshotSource τ) (recv : RestoreReq)
    (newRid : String) : RestorePath → State τ × Option RestoreReply
  | .createNewRequest => handleCreate cfg s source recv newRid
  | .stage => handleStage cfg s source recv
  | .live req => handleLive cfg s source recv req

variable (cfg : Config) (s : State τ) {source : SnapshotSource τ} (recv : RestoreReq)
  (newRid : String) (path : RestorePath)

theorem handleRestoreSnapshot_eq (source : SnapshotSource τ) :
    handleRestoreSnapshot cfg s source recv newRid =
      match route s recv with
      | none => (s, some .requestRunning)
      | some path => path.handle cfg s source recv newRid := by
  rw [handleRestoreSnapshot, route]
  by_cases creates : recv.createNewRequest = true
  · simp only [if_pos creates]
    rfl
  simp only [if_neg creates]
  cases recv.rid with
  | none => rfl
  | some rid =>
    by_cases running : s.runningBatch.any (·.rid == rid) = true
    · simp only [if_pos running]
    · simp only [if_neg running]
      cases s.findIdle rid with
      | none => rfl
      | some req => rfl

variable {recv path} {snapshot : LoadedSnapshot τ}

omit [Torch τ] in
theorem resolveTurn_always (snapshot : LoadedSnapshot τ) (recv : RestoreReq) (conversation : Key) :
    ∃ turn, resolveTurn (.always snapshot) recv conversation = some turn := by
  rw [resolveTurn]
  split
  · exact ⟨_, rfl⟩
  · exact ⟨_, rfl⟩

/-- Once a snapshot is found, the store plays no further part. -/
theorem RestorePath.handle_of_select (selected : path.select source recv = some snapshot) :
    path.handle cfg s source recv newRid = path.handle cfg s (.always snapshot) recv newRid := by
  cases path with
  | createNewRequest =>
    obtain ⟨turn, resolved, loaded⟩ := Option.bind_eq_some_iff.mp selected
    obtain ⟨other, resolved'⟩ := resolveTurn_always snapshot recv recv.conversation
    rw [RestoreReq.conversation] at resolved loaded resolved'
    simp only [handle, handleCreate, resolved, loaded, resolved']
    rfl
  | stage =>
    rw [select, RestoreReq.conversation] at selected
    simp only [handle, handleStage, selected]
    rfl
  | live req =>
    rw [select, RestoreReq.conversation] at selected
    simp only [handle, handleLive, selected]
    rfl

theorem RestorePath.not_accepted_of_select_none (missing : path.select source recv = none) :
    ¬ Accepted (path.handle cfg s source recv newRid).2 := by
  cases path with
  | createNewRequest =>
    rw [select, RestoreReq.conversation] at missing
    rw [handle, handleCreate]
    cases resolved : resolveTurn source recv (Key.or recv.conversationId recv.rid) with
    | none => simp [Accepted, RestoreReply.success]
    | some turn =>
      rw [resolved, Option.bind_some] at missing
      simp [missing, Accepted, RestoreReply.success]
  | stage =>
    rw [select, RestoreReq.conversation] at missing
    simp [handle, handleStage, missing, Accepted, RestoreReply.success]
  | live req =>
    rw [select, RestoreReq.conversation] at missing
    rw [handle, handleLive]
    cases req.mambaPoolIdx with
    | none => simp [Accepted, RestoreReply.success]
    | some slot => simp [missing, Accepted, RestoreReply.success]

def RestoreReq.forBranch (recv : RestoreReq) (name : String) : RestoreReq :=
  { recv with turnNumber := none, branchName := some name }

/-- The selector of a request only decides which snapshot is found. -/
theorem RestorePath.handle_always_forBranch (snapshot : LoadedSnapshot τ) (name : String) :
    path.handle cfg s (.always snapshot) (recv.forBranch name) newRid =
      path.handle cfg s (.always snapshot) recv newRid := by
  cases path with
  | createNewRequest =>
    obtain ⟨turn, resolved⟩ :=
      resolveTurn_always snapshot recv (Key.or recv.conversationId recv.rid)
    simp only [handle, handleCreate, resolved]
    rfl
  | stage => rfl
  | live req => rfl

theorem RestorePath.not_accepted_of_modelDiffers (differs : modelDiffers cfg snapshot = true) :
    ¬ Accepted (path.handle cfg s (.always snapshot) recv newRid).2 := by
  cases path with
  | createNewRequest =>
    obtain ⟨turn, resolved⟩ :=
      resolveTurn_always snapshot recv (Key.or recv.conversationId recv.rid)
    simp only [handle, handleCreate, resolved]
    simp [SnapshotSource.always, differs, Accepted, RestoreReply.success]
  | stage => simp [handle, handleStage, SnapshotSource.always, differs, Accepted,
    RestoreReply.success]
  | live req =>
    rw [handle, handleLive]
    cases req.mambaPoolIdx with
    | none => simp [Accepted, RestoreReply.success]
    | some slot => simp [SnapshotSource.always, differs, Accepted, RestoreReply.success]

end Paths

/-! ### Requests without a selector -/

section Selectorless

variable [Torch τ] {cfg : TierConfig} {hasTierManager : Bool} {now : Nat} {tiers : TierState τ}
  {cid : String} {recv : RestoreReq} {store : SnapshotKey → Option (StoredSnapshot τ)}
  {latest : StoredSnapshot τ}

def SelectsLatest (source : SnapshotSource τ) (conversationId : String) : Prop :=
  ∃ turn latest, source.latestTurn (some conversationId) = some turn ∧
    source.load (some conversationId) (some turn) none = some latest ∧
    ∀ (path : RestorePath) (recv : RestoreReq), recv.conversation = some conversationId →
      recv.turnNumber = none → recv.branchName = none → path.select source recv = some latest

theorem source_load (onDisk : OnDisk cfg.baseDir tiers.disk store) (cid : String)
    (turnNumber : Option Int) (branchName : Option String) :
    loadFromDisk cfg tiers cid turnNumber branchName =
      ((keyOf cid turnNumber branchName).bind store).map .ofStored := by
  rw [loadFromDisk, onDisk.load_toOption]

theorem source_latestTurn (onDisk : OnDisk cfg.baseDir tiers.disk store) {turn : Int}
    (isLatest : IsLatest store cid turn latest) :
    (snapshotSource cfg hasTierManager now tiers).latestTurn (some cid) = some turn := by
  obtain ⟨fs, found, -⟩ := onDisk.getLatestSnapshot_of_isLatest isLatest
  rw [snapshotSource]
  simp only [Option.bind_some, found]
  rfl

variable {store : SnapshotKey → Option (StoredSnapshot τ)}
  (onDisk : OnDisk cfg.baseDir tiers.disk store)
  (asks : recv.conversation = some cid) (noTurn : recv.turnNumber = none)
  (noBranch : recv.branchName = none)

include onDisk asks noTurn noBranch

theorem select_createNewRequest_selectorless {turn : Int}
    (isLatest : IsLatest store cid turn latest) :
    RestorePath.createNewRequest.select (snapshotSource cfg hasTierManager now tiers) recv =
      some (.ofStored latest) := by
  have resolved : resolveTurn (snapshotSource cfg hasTierManager now tiers) recv
      (some cid) = some (some turn) := by
    rw [resolveTurn, noTurn, noBranch, source_latestTurn onDisk isLatest]
    rfl
  have loaded : loadFromDisk cfg tiers cid (some turn) none = some (.ofStored latest) := by
    rw [source_load onDisk]
    exact congrArg _ isLatest.1
  rw [RestorePath.select, asks, resolved, noBranch]
  exact loaded

theorem select_live_selectorless (req : Req) :
    (RestorePath.live req).select (snapshotSource cfg hasTierManager now tiers) recv = none := by
  rw [RestorePath.select, asks, noTurn, noBranch]
  exact source_load onDisk ..

/-- The staging path selects the state of the warm tier and never one on disk: without a
    selector the disk is asked for nothing. -/
theorem select_stage_selectorless :
    RestorePath.stage.select (snapshotSource cfg hasTierManager now tiers) recv =
      if hasTierManager && tiers.hostPool.hasState cid then
        (restoreFromWarmTier cfg cid now tiers).1.toOption.join.map .ofRestored
      else none := by
  have nothing : loadFromDisk cfg tiers cid none none = none := source_load onDisk ..
  rw [RestorePath.select, asks, noTurn, noBranch]
  change loadSnapshotForPendingRestore cfg hasTierManager now tiers cid none none = _
  simp only [loadSnapshotForPendingRestore, Option.isNone_none, Bool.and_true, nothing]
  split
  · rcases (restoreFromWarmTier cfg cid now tiers).1 with error | _ | warm
    · rfl
    · rfl
    · rfl
  · rfl

omit asks noTurn noBranch

/-- Every conversation with a turn on disk has a latest snapshot. The path that creates a
    request selects it, the one for a live request refuses, so the paths do not agree. -/
theorem selectorless_restore_not_latest {conversationId : String} {turn : Int}
    (stored : HasSnapshot cfg.baseDir tiers.disk ⟨conversationId, .turn turn⟩)
    (hasTierManager : Bool) (now : Nat) :
    let source := snapshotSource cfg hasTierManager now tiers
    (∃ turn latest, source.latestTurn (some conversationId) = some turn ∧
      source.load (some conversationId) (some turn) none = some latest ∧
      ∀ recv : RestoreReq, recv.conversation = some conversationId → recv.turnNumber = none →
        recv.branchName = none →
          RestorePath.createNewRequest.select source recv = some latest ∧
          ∀ sched s newRid req,
            ¬ Accepted ((RestorePath.live req).handle sched s source recv newRid).2) ∧
    ¬ SelectsLatest source conversationId := by
  intro source
  constructor
  · rw [onDisk.hasSnapshot_iff] at stored
    rcases onDisk.getLatestSnapshot_cases conversationId with
      ⟨turn, latest, -, isLatest, -⟩ | ⟨nothing, -⟩
    · refine ⟨turn, .ofStored latest, source_latestTurn onDisk isLatest, ?_, ?_⟩
      · exact (source_load onDisk ..).trans (congrArg _ isLatest.1)
      · intro recv asks noTurn noBranch
        exact ⟨select_createNewRequest_selectorless onDisk asks noTurn noBranch isLatest,
          fun sched s newRid req => RestorePath.not_accepted_of_select_none sched s newRid
            (select_live_selectorless onDisk asks noTurn noBranch req)⟩
    · rw [nothing turn] at stored
      cases stored
  rintro ⟨turn, latest, -, -, selects⟩
  -- a live request, named by the id of its conversation
  let recv : RestoreReq := { rid := some conversationId }
  let req : Req := { rid := conversationId, originInputIds := [] }
  have missing : (RestorePath.live req).select source recv = none :=
    select_live_selectorless onDisk rfl rfl rfl req
  cases missing.symm.trans (selects (.live req) recv rfl rfl rfl)

end Selectorless

/-- A snapshot of turn 1 of `a`. -/
def sampleTurn (fillIds : Option (List Nat)) : StoredSnapshot IntTensor :=
  let stored := demoted "a" 0 (sampleEntry 1 (some 1)).restored
  { stored with metadata := { stored.metadata with fillIds } }

/-- The snapshot is on disk and the pool is empty. -/
def sampleTiers (cfg : TierConfig) (fillIds : Option (List Nat)) : TierState IntTensor :=
  (saveToColdTier cfg "a" (sampleTurn fillIds) {}).2

theorem sampleTiers_onDisk (cfg : TierConfig) (fillIds : Option (List Nat)) :
    ∃ store, OnDisk cfg.baseDir (sampleTiers cfg fillIds).disk store := by
  have views : Views cfg ({} : TierState IntTensor) ⟨_, _, fun _ => none⟩ :=
    ⟨fun _ => rfl, fun _ => rfl, .empty⟩
  obtain ⟨v, saved, -⟩ := views.saveToColdTier_effect "a" _
  exact ⟨v.store, saved.onDisk⟩

theorem selectorless_restore_of_sample :
    let cfg : TierConfig := { baseDir := ["store"] }
    let tiers := sampleTiers cfg (some [7, 8])
    HasSnapshot cfg.baseDir tiers.disk ⟨"a", .turn 1⟩ ∧
      ¬ SelectsLatest (snapshotSource cfg true 0 tiers) "a" := by
  intro cfg tiers
  obtain ⟨store, onDisk⟩ := sampleTiers_onDisk cfg (some [7, 8])
  have stored : HasSnapshot cfg.baseDir tiers.disk ⟨"a", .turn 1⟩ := by decide
  exact ⟨stored, (selectorless_restore_not_latest onDisk stored true 0).2⟩

/-- One snapshot on disk and nothing in the warm tier: the request is accepted by the path
    that creates a request, not found by the staging path and an error for a live request. -/
theorem selectorless_paths_differ :
    let cfg : TierConfig := { baseDir := ["store"] }
    let source := snapshotSource cfg true 0 (sampleTiers cfg (some [7, 8]))
    let sched : Config := { cache := { kind := .mambaRadixCache }, ppMaxMicroBatchSize := 4 }
    let spec : Memory.TensorSpec := ⟨.float32, [1]⟩
    let finished : State IntTensor := .initial 3 [spec] spec 1
    let req : Req := { rid := "r", originInputIds := [5], mambaPoolIdx := some 1 }
    let waiting := { finished with waitingQueue := [req] }
    let recv : RestoreReq := { rid := some "r", conversationId := some "a" }
    let creates := { recv with createNewRequest := true, continuationIds := some [] }
    (handleRestoreSnapshot sched finished source creates "new").2 = none ∧
      (handleRestoreSnapshot sched finished source recv "new").2 =
        some (.notFound (some "a") none none) ∧
      (handleRestoreSnapshot sched waiting source recv "new").2 = some .restoreFailed ∧
      ¬ SelectsLatest source "a" := by
  intro cfg source sched spec finished req waiting recv creates
  refine ⟨by decide +kernel, by decide +kernel, by decide +kernel, ?_⟩
  rintro ⟨turn, latest, -, -, selects⟩
  have missing : (RestorePath.select source recv (.live req)).isNone = true := by decide +kernel
  rw [selects (.live req) recv rfl rfl rfl] at missing
  cases missing

/-! ### Branches -/

section Branch

variable [Torch τ] {cfg : TierConfig} {hasTierManager : Bool} {later now : Nat}
  {tiers : TierState τ} {cid name : String} {turn : Int}
  {store : SnapshotKey → Option (StoredSnapshot τ)} {snapshot : StoredSnapshot τ}

/-- A branch of a turn loads with the tensors of the source, and every path that accepts a
    request for the turn accepts one for the branch and finds the same token ids. -/
structure BranchAsRestorable (cfg : Config) (source : SnapshotSource τ) (conversationId : String)
    (turn : Int) (name : String) (snapshot : StoredSnapshot τ) : Prop where
  loads : ∃ branch, source.load (some conversationId) none (some name) = some branch ∧
    branch.convStates = snapshot.convStates ∧ branch.temporalStates = snapshot.temporalStates
  accepts : ∀ (s : State τ) (recv : RestoreReq) (newRid : String),
    recv.conversation = some conversationId → recv.turnNumber = some turn → recv.branchName = none →
      Accepted (handleRestoreSnapshot cfg s source recv newRid).2 →
        Accepted (handleRestoreSnapshot cfg s source (recv.forBranch name) newRid).2 ∧
        ∀ path, route s recv = some path →
          (path.select source (recv.forBranch name)).map LoadedSnapshot.fillIds =
            (path.select source recv).map LoadedSnapshot.fillIds

theorem select_of_selector {recv : RestoreReq} (asks : recv.conversation = some cid)
    (given : (recv.turnNumber.isNone && recv.branchName.isNone) = false) (path : RestorePath) :
    path.select (snapshotSource cfg hasTierManager later tiers) recv =
      loadFromDisk cfg tiers cid recv.turnNumber recv.branchName := by
  cases path with
  | createNewRequest =>
    have resolved : resolveTurn (snapshotSource cfg hasTierManager later tiers) recv
        (some cid) = some recv.turnNumber := by
      rw [resolveTurn, given]
      rfl
    rw [RestorePath.select, asks, resolved]
    rfl
  | stage =>
    rw [RestorePath.select, asks]
    change loadSnapshotForPendingRestore cfg hasTierManager later tiers cid
      recv.turnNumber recv.branchName = _
    rw [loadSnapshotForPendingRestore, Bool.and_assoc hasTierManager, given, Bool.and_false]
    rfl
  | live req =>
    rw [RestorePath.select, asks]
    rfl

theorem load_branch (onDisk : OnDisk cfg.baseDir tiers.disk store)
    (stored : store ⟨cid, .turn turn⟩ = some snapshot)
    (created : (createBranch cfg.baseDir cid name (some turn) now tiers.disk).1 = .ok true)
    (named : name ≠ "") :
    let branched := { tiers with
      disk := (createBranch cfg.baseDir cid name (some turn) now tiers.disk).2 }
    loadFromDisk cfg branched cid (some turn) none = some (.ofStored snapshot) ∧
      loadFromDisk cfg branched cid none (some name) =
        some (LoadedSnapshot.ofStored snapshot).withoutFillIds := by
  intro branched
  obtain ⟨key, isKey, onDisk'⟩ := onDisk.createBranch stored created
  have isBranch : key = ⟨cid, .branch name⟩ := by
    rw [keyOf, selectorOf_branch named] at isKey
    exact (Option.some.inj isKey).symm
  subst isBranch
  have disk : OnDisk cfg.baseDir branched.disk _ := onDisk'
  rw [source_load disk, source_load disk]
  constructor
  · have other : SnapshotKey.mk cid (.turn turn) ≠ ⟨cid, .branch name⟩ := by
      simp
    exact congrArg _ ((Function.update_of_ne other _ _).trans stored)
  · rw [keyOf, selectorOf_branch named]
    exact congrArg _ (Function.update_self ..)

theorem branchAsRestorable_iff_of_selects {sched : Config} {source : SnapshotSource τ}
    (loads : source.load (some cid) none (some name) =
      some (LoadedSnapshot.ofStored snapshot).withoutFillIds)
    (selects : ∀ (path : RestorePath) (recv : RestoreReq), recv.conversation = some cid →
      recv.turnNumber = some turn → recv.branchName = none →
        path.select source recv = some (.ofStored snapshot) ∧
          path.select source (recv.forBranch name) =
            some (LoadedSnapshot.ofStored snapshot).withoutFillIds) :
    BranchAsRestorable sched source cid turn name snapshot ↔
      snapshot.metadata.fillIds = none ∨ modelDiffers sched (.ofStored snapshot) = true := by
  constructor
  · intro restorable
    by_contra neither
    obtain ⟨hasIds, agrees⟩ := not_or.mp neither
    -- for a request that has finished the snapshot is staged, with or without token ids
    let s : State τ := .initial 0 [] ⟨.float32, []⟩ 0
    let recv : RestoreReq := { rid := some cid, turnNumber := some turn }
    obtain ⟨selected, selectedBranch⟩ := selects .stage recv rfl rfl rfl
    have accepted : Accepted (handleRestoreSnapshot sched s source recv "").2 := by
      change Accepted (RestorePath.stage.handle sched s source recv "").2
      rw [RestorePath.handle_of_select sched s "" selected]
      simp [RestorePath.handle, handleStage, SnapshotSource.always, agrees, Accepted,
        RestoreReply.success]
    obtain ⟨-, tokens⟩ := restorable.accepts s recv "" rfl rfl rfl accepted
    have same := tokens .stage rfl
    rw [selected, selectedBranch] at same
    exact hasIds (Option.some.inj same).symm
  · intro condition
    refine ⟨⟨_, loads, rfl, rfl⟩, ?_⟩
    intro s recv newRid asks isTurn noBranch accepted
    -- the path does not depend on the selector
    have sameRoute : route s (recv.forBranch name) = route s recv := rfl
    rw [handleRestoreSnapshot_eq] at accepted ⊢
    rw [sameRoute]
    cases served : route s recv with
    | none =>
      rw [served] at accepted
      cases accepted
    | some path =>
      rw [served] at accepted
      obtain ⟨selected, selectedBranch⟩ := selects path recv asks isTurn noBranch
      have turnHandled := RestorePath.handle_of_select sched s newRid selected
      simp only [turnHandled] at accepted
      rcases condition with noIds | differs
      · have same : (LoadedSnapshot.ofStored snapshot).withoutFillIds = .ofStored snapshot := by
          simp [LoadedSnapshot.withoutFillIds, LoadedSnapshot.ofStored, noIds]
        rw [same] at selectedBranch
        constructor
        · simp only [RestorePath.handle_of_select sched s newRid selectedBranch,
            RestorePath.handle_always_forBranch]
          exact accepted
        · intro other isPath
          cases isPath
          rw [selected, selectedBranch]
      · exact absurd accepted (RestorePath.not_accepted_of_modelDiffers sched s newRid differs)

/-- A branch is as restorable as its source exactly if it has a name and the source has no
    token ids or is of another model, so that no path accepts it. -/
theorem branch_as_restorable_iff {conversationId : String}
    (onDisk : OnDisk cfg.baseDir tiers.disk store)
    (loaded : (loadSnapshot cfg.baseDir conversationId (some turn) none tiers.disk).1 =
      .ok snapshot)
    (created : (createBranch cfg.baseDir conversationId name (some turn) now tiers.disk).1 =
      .ok true)
    (sched : Config) (hasTierManager : Bool) (later : Nat) :
    BranchAsRestorable sched (snapshotSource cfg hasTierManager later { tiers with
        disk := (createBranch cfg.baseDir conversationId name (some turn) now tiers.disk).2 })
      conversationId turn name snapshot ↔
    name ≠ "" ∧ (snapshot.metadata.fillIds = none ∨
      modelDiffers sched (.ofStored snapshot) = true) := by
  have stored : store ⟨conversationId, .turn turn⟩ = some snapshot :=
    (onDisk.load_eq_ok_iff rfl).mp loaded
  by_cases named : name = ""
  · -- an empty name is no selector, so the branch cannot be loaded
    refine iff_of_false ?_ (fun condition => condition.1 named)
    subst named
    intro restorable
    obtain ⟨branch, loads, -⟩ := restorable.loads
    obtain ⟨key, -, onDisk'⟩ := onDisk.createBranch stored created
    have nothing : loadFromDisk cfg { tiers with
        disk := (createBranch cfg.baseDir conversationId "" (some turn) now tiers.disk).2 }
        conversationId none (some "") = none := source_load onDisk' ..
    cases nothing.symm.trans loads
  obtain ⟨turnLoads, branchLoads⟩ := load_branch onDisk stored created named
  rw [and_iff_right named]
  apply branchAsRestorable_iff_of_selects branchLoads
  intro path recv asks isTurn noBranch
  constructor
  · rw [select_of_selector asks (by rw [isTurn]; rfl), isTurn, noBranch]
    exact turnLoads
  · have asksBranch : (recv.forBranch name).conversation = some conversationId := asks
    rw [select_of_selector asksBranch rfl]
    exact branchLoads

end Branch

theorem branch_as_restorable_without_ids :
    let cfg : TierConfig := { baseDir := ["store"] }
    let sched : Config := { cache := { kind := .mambaRadixCache }, ppMaxMicroBatchSize := 4 }
    let tiers := sampleTiers cfg none
    let branched := { tiers with
      disk := (createBranch cfg.baseDir "a" "b" (some 1) 1 tiers.disk).2 }
    BranchAsRestorable sched (snapshotSource cfg true 2 branched) "a" 1 "b" (sampleTurn none) := by
  intro cfg sched tiers branched
  obtain ⟨store, onDisk⟩ := sampleTiers_onDisk cfg none
  have loaded : (loadSnapshot cfg.baseDir "a" (some 1) none tiers.disk).1 =
      .ok (sampleTurn none) := by
    decide +kernel
  have created : (createBranch cfg.baseDir "a" "b" (some 1) 1 tiers.disk).1 = .ok true := by
    decide +kernel
  exact (branch_as_restorable_iff onDisk loaded created sched true 2).mpr ⟨by decide, .inl rfl⟩

/-- Turn 1 with token ids `[7, 8]` is accepted by the path that creates a request and by that
    for a live request; its branch is turned away by both for missing token ids. -/
theorem branch_not_as_restorable :
    let cfg : TierConfig := { baseDir := ["store"] }
    let tiers := sampleTiers cfg (some [7, 8])
    let branched := { tiers with
      disk := (createBranch cfg.baseDir "a" "b" (some 1) 1 tiers.disk).2 }
    let source := snapshotSource cfg true 2 branched
    let sched : Config := { cache := { kind := .mambaRadixCache }, ppMaxMicroBatchSize := 4 }
    let spec : Memory.TensorSpec := ⟨.float32, [1]⟩
    let finished : State IntTensor := .initial 3 [spec] spec 1
    let req : Req := { rid := "r", originInputIds := [5], mambaPoolIdx := some 1 }
    let waiting := { finished with waitingQueue := [req] }
    let recv : RestoreReq := { rid := some "r", conversationId := some "a", turnNumber := some 1 }
    let creates := { recv with createNewRequest := true, continuationIds := some [] }
    (createBranch cfg.baseDir "a" "b" (some 1) 1 tiers.disk).1 = .ok true ∧
      (handleRestoreSnapshot sched finished source creates "new").2 = none ∧
      (handleRestoreSnapshot sched finished source (creates.forBranch "b") "new").2 =
        some .fillIdsMissing ∧
      (handleRestoreSnapshot sched waiting source recv "new").2 = some (.restored (some "r") 1 0) ∧
      (handleRestoreSnapshot sched waiting source (recv.forBranch "b") "new").2 =
        some .fillIdsMissing ∧
      ¬ BranchAsRestorable sched source "a" 1 "b" (sampleTurn (some [7, 8])) := by
  intro cfg tiers branched source sched spec finished req waiting recv creates
  have accepted : (handleRestoreSnapshot sched finished source creates "new").2 = none := by
    decide +kernel
  have refused : (handleRestoreSnapshot sched finished source (creates.forBranch "b") "new").2 =
      some .fillIdsMissing := by
    decide +kernel
  refine ⟨by decide +kernel, accepted, refused, by decide +kernel, by decide +kernel, ?_⟩
  intro restorable
  obtain ⟨accepts, -⟩ := restorable.accepts finished creates "new" rfl rfl rfl (by
    rw [accepted]
    trivial)
  rw [refused] at accepts
  cases accepts

end Engram.Scheduler
