import Engram.Memory.Exchange
import Engram.Recording.Life
import Engram.Scheduler.InFlight
import Engram.Snapshot.Faults
import Engram.Tier.Manager

/-!
# Saving on request

`handle_save_snapshot` of `scheduler_snapshot_handlers.py`. A request the scheduler still holds is
saved from its slot; for one that has finished the state in the warm tier is written to disk. The
key comes from the save request, except that the warm path reads a turn number of `0` as missing
(`explicit_key_honoured_iff`).
-/

namespace Engram.Tier

open Lib Memory Recording Scheduler Snapshot Function

variable {τ : Type}

/-- `SaveSnapshotReqInput`. -/
structure SaveSnapshotReq where
  rid : Key
  snapshotId : Key := none
  conversationId : Key := none
  turnNumber : Option Int := none
  branchName : Option String := none
deriving DecidableEq, Repr

/-- `SaveSnapshotReqOutput`. -/
inductive SaveReply where
  /-- "Snapshot system not enabled. Start server with --enable-mamba-snapshots" -/
  | notEnabled
  /-- "Snapshot saved successfully (from WARM tier)" -/
  | savedFromWarm (snapshotId : String)
  /-- "Request not found and no WARM tier state for: …" -/
  | notFound (rid : Key)
  /-- "Request does not have Mamba state (not a Mamba model or state not allocated)" -/
  | noMambaState
  /-- "Mamba pool not available" -/
  | poolNotAvailable
  /-- "Snapshot saved successfully" -/
  | saved (snapshotId : String)
  /-- "Error saving snapshot: …" -/
  | failed
deriving DecidableEq, Repr

def SaveReply.success : SaveReply → Bool
  | .savedFromWarm _ => true
  | .saved _ => true
  | _ => false

/-- What the handler reads of the scheduler. -/
structure Saving (τ : Type) where
  scheduling : Scheduling τ
  tiers : TierState τ
  /-- `snapshot_manager is not None` -/
  snapshotManager : Bool := true
  /-- `tier_manager is not None` -/
  tierManager : Bool := true
  /-- `req_to_token_pool` has a Mamba pool -/
  mambaPool : Bool := true

namespace SaveSnapshotReq

variable (recv : SaveSnapshotReq)

/-- `effective_conv_id`. -/
def conversation : Key :=
  Key.or recv.conversationId recv.rid

def effectiveSnapshotId : String :=
  if recv.snapshotId.truthy then recv.snapshotId.getD ""
  else recv.conversation.getD "None" ++ "-t" ++ toString (recv.turnNumber.getD 0)

def warmTurn (metadata : MetadataDict) : Int :=
  let recorded := metadata.turnNumber.getD 0
  match recv.turnNumber with
  | none => recorded
  | some turn => if turn ≠ 0 then turn else recorded

def warmSnapshot (server : Server) (now : Nat) (conversation : String) (restored : Restored τ) :
    StoredSnapshot τ where
  convStates := restored.convStates
  temporalStates := restored.temporalStates
  metadata :=
    { conversationId := conversation
      turnNumber := recv.warmTurn restored.metadata
      branchName := recv.branchName
      timestamp := now
      tokenCount := restored.metadata.tokenCount.getD 0
      modelName := server.modelPath
      mambaPoolIdx := restored.metadata.mambaPoolIdx.getD 0
      reqPoolIdx := restored.metadata.reqPoolIdx.getD 0
      layerConfig := restored.metadata.layerConfig.getD []
      fillIds := restored.metadata.fillIds }

/-- The snapshot the live path hands to `save_snapshot`. A branch saved without a turn has
    no turn number in its record; the type of the record has no room for that, and the
    `0` that stands here for it is not part of its key. -/
def liveSnapshot (server : Server) (now : Nat) (conversation : String) (req : Req)
    (slot row : Nat) (state : List τ × τ) : StoredSnapshot τ where
  convStates := state.1
  temporalStates := state.2
  metadata :=
    { conversationId := conversation
      turnNumber := recv.turnNumber.getD 0
      branchName := recv.branchName
      timestamp := now
      tokenCount := req.fillIds.length
      modelName := server.modelPath
      mambaPoolIdx := slot
      reqPoolIdx := row
      layerConfig := [("num_layers", .number server.numMambaLayers),
        ("model_type", .text "hybrid")]
      fillIds := some req.fillIds }

end SaveSnapshotReq

section Handler

variable [Torch τ] (server : Server) (cfg : TierConfig) (fault : Option SaveFault) (now : Nat)

def persist (snapshot : StoredSnapshot τ) (tiers : TierState τ) (reply : SaveReply) :
    SaveReply × TierState τ :=
  match saveSnapshot cfg.baseDir fault snapshot.convStates snapshot.temporalStates
      snapshot.metadata tiers.disk with
  | (.error _, disk) => (.failed, { tiers with disk })
  | (.ok _, disk) => (reply, { tiers with disk })

/-- The branch of the handler for a request that is not found. -/
def saveFromWarm (s : Saving τ) (recv : SaveSnapshotReq) : SaveReply × TierState τ :=
  match recv.conversation with
  | none => (.notFound recv.rid, s.tiers)
  | some conversation =>
    if s.tierManager && s.tiers.hostPool.hasState conversation then
      match restoreFromWarmTier cfg conversation now s.tiers with
      | (.error _, tiers) => (.failed, tiers)
      | (.ok none, tiers) => (.notFound recv.rid, tiers)
      | (.ok (some restored), tiers) =>
        persist cfg fault (recv.warmSnapshot server now conversation restored) tiers
          (.savedFromWarm recv.effectiveSnapshotId)
    else (.notFound recv.rid, s.tiers)

/-- The branch for a request that the scheduler holds. Without a turn and a branch
    `_get_snapshot_paths` raises, and without a row `int(req.req_pool_idx)` does. -/
def saveLive (s : Saving τ) (recv : SaveSnapshotReq) (req : Req) : SaveReply × TierState τ :=
  match req.mambaPoolIdx with
  | none => (.noMambaState, s.tiers)
  | some slot =>
    if s.mambaPool = false then (.poolNotAvailable, s.tiers)
    else
      match extractStateFromPool s.scheduling.state.mem.pool slot, req.reqPoolIdx,
          selectorOf recv.turnNumber recv.branchName with
      | .ok state, some row, some _ =>
        persist cfg fault
          (recv.liveSnapshot server now (recv.conversation.getD "") req slot row state) s.tiers
          (.saved recv.effectiveSnapshotId)
      | _, _, _ => (.failed, s.tiers)

def handleSaveSnapshot (s : Saving τ) (recv : SaveSnapshotReq) : SaveReply × TierState τ :=
  if s.snapshotManager = false then (.notEnabled, s.tiers)
  else
    match recv.rid.bind s.scheduling.findRequestByRid with
    | none => saveFromWarm server cfg fault now s recv
    | some req => saveLive server cfg fault now s recv req

end Handler

/-- The live path builds the record that the life of one request is followed with. -/
theorem storeLive_eq_liveSnapshot [DecidableEq τ] [Torch τ] (server : Server) (now : Nat)
    {recv : SaveSnapshotReq} {conversation : String} {turn : Int}
    (given : recv.turnNumber = some turn) {life : Life τ} {slot row : Nat} {state : List τ × τ}
    (named : life.req.mambaPoolIdx = some slot) (placed : life.req.reqPoolIdx = some row)
    (extracted : extractStateFromPool life.pool slot = .ok state) :
    storeLive server now conversation turn recv.branchName life =
      some (recv.liveSnapshot server now conversation life.req slot row state) := by
  simp only [extractStateFromPool] at extracted
  split at extracted
  · cases extracted
  next valid =>
  cases extracted
  have isValid : (validateStateTensors (life.pool.cache slot).conv (life.pool.cache slot).temporal
      none false).isValid = true := by
    simpa using valid
  simp only [storeLive, named, placed, isValid, if_true, SaveSnapshotReq.liveSnapshot, given,
    Option.getD_some]

/-! ### The key of a saved snapshot -/

section Keys

variable {recv : SaveSnapshotReq} {selector : Selector}

theorem selectorOf_congr {turnNumber : Option Int} {branchName : Option String} {turn : Int}
    (selected : selectorOf turnNumber branchName = some selector)
    (same : ∀ number, selector = .turn number → turn = number) :
    selectorOf (some turn) branchName = some selector := by
  unfold selectorOf at selected ⊢
  split at selected
  · exact selected
  · obtain ⟨number, -, rfl⟩ := Option.map_eq_some_iff.mp selected
    rw [same number rfl]
    rfl

theorem SaveSnapshotReq.liveSnapshot_key
    (named : selectorOf recv.turnNumber recv.branchName = some selector) (server : Server)
    (now : Nat) (conversation : String) (req : Req) (slot row : Nat) (state : List τ × τ) :
    (recv.liveSnapshot server now conversation req slot row state).key =
      some ⟨conversation, selector⟩ := by
  have selected : selectorOf (some (recv.turnNumber.getD 0)) recv.branchName = some selector := by
    apply selectorOf_congr named
    rintro number rfl
    rw [turnNumber_of_selectorOf named]
    rfl
  simp only [liveSnapshot, StoredSnapshot.key, keyOf, selected, Option.map_some]

theorem SaveSnapshotReq.warmSnapshot_key
    (named : selectorOf recv.turnNumber recv.branchName = some selector) {restored : Restored τ}
    (kept : selector = .turn 0 → restored.metadata.turnNumber.getD 0 = 0) (server : Server)
    (now : Nat) (conversation : String) :
    (recv.warmSnapshot server now conversation restored).key = some ⟨conversation, selector⟩ := by
  have selected : selectorOf (some (recv.warmTurn restored.metadata)) recv.branchName =
      some selector := by
    apply selectorOf_congr named
    rintro number rfl
    rw [warmTurn, turnNumber_of_selectorOf named]
    by_cases zero : number = 0
    · subst zero
      simpa using kept rfl
    · simp only [if_pos zero]
  simp only [warmSnapshot, StoredSnapshot.key, keyOf, selected, Option.map_some]

theorem SaveSnapshotReq.warmSnapshot_key_of_zero
    (named : selectorOf recv.turnNumber recv.branchName = some (.turn 0)) (restored : Restored τ)
    (server : Server) (now : Nat) (conversation : String) :
    (recv.warmSnapshot server now conversation restored).key =
      some ⟨conversation, .turn (restored.metadata.turnNumber.getD 0)⟩ := by
  have recorded : recv.warmTurn restored.metadata = restored.metadata.turnNumber.getD 0 := by
    rw [warmTurn, turnNumber_of_selectorOf named]
    rfl
  have selected : selectorOf (some (restored.metadata.turnNumber.getD 0)) recv.branchName =
      some (.turn (restored.metadata.turnNumber.getD 0)) := by
    unfold selectorOf at named ⊢
    split at named
    · cases named
    · rfl
  simp only [warmSnapshot, StoredSnapshot.key, keyOf, recorded, selected, Option.map_some]

end Keys

/-! ### What a call saves -/

section Saved

variable [Torch τ] {server : Server} {cfg : TierConfig} {fault : Option SaveFault} {now : Nat}
  {s : Saving τ} {recv : SaveSnapshotReq} {conversation : String} {entry : HostPoolEntry τ}
  {snapshot : StoredSnapshot τ} {store : SnapshotKey → Option (StoredSnapshot τ)}
  {fs : FileSystem (Content τ)}

structure FoundWarm (cfg : TierConfig) (s : Saving τ) (recv : SaveSnapshotReq)
    (conversation : String) (entry : HostPoolEntry τ) : Prop where
  missing : recv.rid.bind s.scheduling.findRequestByRid = none
  effective : recv.conversation = some conversation
  tierManager : s.tierManager = true
  kept : s.tiers.hostPool.pool.lookup conversation = some entry
  sameModel : cfg.modelMismatch entry.restored.metadata.modelName = false

structure FoundLive (s : Saving τ) (recv : SaveSnapshotReq) (req : Req) (slot row : Nat)
    (state : List τ × τ) : Prop where
  found : recv.rid.bind s.scheduling.findRequestByRid = some req
  named : req.mambaPoolIdx = some slot
  placed : req.reqPoolIdx = some row
  extracted : extractStateFromPool s.scheduling.state.mem.pool slot = .ok state

def Saving.served (s : Saving τ) (recv : SaveSnapshotReq) : Option (List τ × τ) :=
  match recv.rid.bind s.scheduling.findRequestByRid with
  | some req => req.mambaPoolIdx.map (fun slot =>
      let state := s.scheduling.state.mem.pool.cache slot
      (state.conv, state.temporal))
  | none => (recv.conversation.bind s.tiers.hostPool.pool.lookup).map (fun entry =>
      (entry.convStates, entry.temporalStates))

omit [Torch τ] in
theorem FoundWarm.served (warm : FoundWarm cfg s recv conversation entry) :
    s.served recv = some (entry.convStates, entry.temporalStates) := by
  simp only [Saving.served, warm.missing, warm.effective, Option.bind_some, warm.kept,
    Option.map_some]

theorem FoundLive.served {req : Req} {slot row : Nat} {state : List τ × τ}
    (live : FoundLive s recv req slot row state) : s.served recv = some state := by
  have extracted := live.extracted
  simp only [extractStateFromPool] at extracted
  split at extracted
  · cases extracted
  · cases extracted
    simp only [Saving.served, live.found, live.named, Option.map_some]

inductive Offered (server : Server) (cfg : TierConfig) (now : Nat) (s : Saving τ)
    (recv : SaveSnapshotReq) : StoredSnapshot τ → Prop
  | warm {conversation : String} {entry : HostPoolEntry τ}
      (found : FoundWarm cfg s recv conversation entry) :
      Offered server cfg now s recv (recv.warmSnapshot server now conversation entry.restored)
  | live {conversation : String} {req : Req} {slot row : Nat} {state : List τ × τ}
      (effective : recv.conversation = some conversation)
      (found : FoundLive s recv req slot row state) :
      Offered server cfg now s recv
        (recv.liveSnapshot server now conversation req slot row state)

theorem persist_success {tiers : TierState τ} {reply : SaveReply}
    (success : (persist cfg fault snapshot tiers reply).1.success = true) :
    (saveSnapshot cfg.baseDir fault snapshot.convStates snapshot.temporalStates snapshot.metadata
      tiers.disk).1.isOk = true := by
  unfold persist at success
  split at success
  · cases success
  · next returned => rw [returned]; rfl

theorem persist_disk (snapshot : StoredSnapshot τ) (tiers : TierState τ) (reply : SaveReply) :
    (persist cfg fault snapshot tiers reply).2.disk =
      (saveSnapshot cfg.baseDir fault snapshot.convStates snapshot.temporalStates
        snapshot.metadata tiers.disk).2 := by
  unfold persist
  split
  · next raised => rw [raised]
  · next returned => rw [returned]

theorem FoundWarm.saveFromWarm_eq (warm : FoundWarm cfg s recv conversation entry) (server : Server)
    (fault : Option SaveFault) (now : Nat) : ∃ tiers : TierState τ, tiers.disk = s.tiers.disk ∧
      saveFromWarm server cfg fault now s recv =
        persist cfg fault (recv.warmSnapshot server now conversation entry.restored) tiers
          (.savedFromWarm recv.effectiveSnapshotId) := by
  have has : (s.tierManager && s.tiers.hostPool.hasState conversation) = true := by
    rw [warm.tierManager, MambaHostPool.hasState_of_some warm.kept]
    rfl
  simp only [saveFromWarm, warm.effective, has, restoreFromWarmTier,
    MambaHostPool.getState_of_some warm.kept, warm.sameModel]
  refine ⟨_, ?_, rfl⟩
  rfl

theorem saveFromWarm_success (missing : recv.rid.bind s.scheduling.findRequestByRid = none)
    (success : (saveFromWarm server cfg fault now s recv).1.success = true) :
    ∃ conversation entry, FoundWarm cfg s recv conversation entry := by
  rw [saveFromWarm] at success
  split at success
  · cases success
  next conversation effective =>
  split at success
  · next available =>
    obtain ⟨tierManager, has⟩ := Bool.and_eq_true_iff.mp available
    rw [MambaHostPool.hasState_eq] at has
    obtain ⟨entry, kept⟩ := Option.isSome_iff_exists.mp has
    refine ⟨conversation, entry, missing, effective, tierManager, kept, ?_⟩
    by_contra mismatch
    rw [Bool.not_eq_false] at mismatch
    simp only [restoreFromWarmTier, MambaHostPool.getState_of_some kept, mismatch] at success
    cases success
  · cases success

theorem handleSaveSnapshot_success
    (success : (handleSaveSnapshot server cfg fault now s recv).1.success = true) :
    ∃ snapshot, Offered server cfg now s recv snapshot ∧
      (saveSnapshot cfg.baseDir fault snapshot.convStates snapshot.temporalStates
        snapshot.metadata s.tiers.disk).1.isOk = true ∧
      (handleSaveSnapshot server cfg fault now s recv).2.disk =
        (saveSnapshot cfg.baseDir fault snapshot.convStates snapshot.temporalStates
          snapshot.metadata s.tiers.disk).2 := by
  revert success
  rw [handleSaveSnapshot]
  split
  · exact nofun
  split
  · next missing =>
    intro success
    obtain ⟨conversation, entry, warm⟩ := saveFromWarm_success missing success
    obtain ⟨tiers, disk, path⟩ := warm.saveFromWarm_eq server fault now
    rw [path] at success ⊢
    refine ⟨_, .warm warm, ?_, ?_⟩
    · rw [← disk]
      exact persist_success success
    · rw [← disk]
      exact persist_disk _ _ _
  · next req found =>
    rw [saveLive]
    split
    · exact nofun
    next slot named =>
    split
    · exact nofun
    split
    · next state row selector extracted placed selected =>
      intro success
      -- a request is found by its id, so the conversation has a name
      obtain ⟨rid, given, -⟩ := Option.bind_eq_some_iff.mp found
      obtain ⟨conversation, effective⟩ : ∃ conversation, recv.conversation = some conversation := by
        rw [SaveSnapshotReq.conversation, Key.or, given]
        split
        · next truthy => exact Option.ne_none_iff_exists'.mp (Key.ne_none_of_truthy truthy)
        · exact ⟨rid, rfl⟩
      rw [effective] at success ⊢
      exact ⟨_, .live effective ⟨found, named, placed, extracted⟩, persist_success success,
        persist_disk _ _ _⟩
    · exact nofun

/-! ### Honoured keys -/

/-- The call reports a failure, or the key it names holds the state it is about and no other
    key has changed. -/
def Honoured (server : Server) (cfg : TierConfig) (fault : Option SaveFault) (now : Nat)
    (s : Saving τ) (recv : SaveSnapshotReq) (selector : Selector)
    (store : SnapshotKey → Option (StoredSnapshot τ)) : Prop :=
  let result := handleSaveSnapshot server cfg fault now s recv
  result.1.success = true → ∃ conversation snapshot, recv.conversation = some conversation ∧
    s.served recv = some (snapshot.convStates, snapshot.temporalStates) ∧
    OnDisk cfg.baseDir result.2.disk
      (Function.update store ⟨conversation, selector⟩ (some snapshot))

/-- Turn `0` is asked for, and the state comes from the warm tier, where another turn is
    recorded under which it can be saved. -/
structure ReplacesTurnZero (server : Server) (cfg : TierConfig) (fault : Option SaveFault)
    (now : Nat) (s : Saving τ) (recv : SaveSnapshotReq) (conversation : String)
    (entry : HostPoolEntry τ) : Prop where
  snapshotManager : s.snapshotManager = true
  warm : FoundWarm cfg s recv conversation entry
  zero : selectorOf recv.turnNumber recv.branchName = some (.turn 0)
  recorded : 0 < entry.restored.metadata.turnNumber.getD 0
  diskWorks : fault = none
  sanitized : Sanitized conversation
  storable : (recv.warmSnapshot server now conversation entry.restored).Storable

/-- The disk has that state under turn `0` already, and the very snapshot that is about to
    be written under the recorded turn. -/
def AlreadyStored (server : Server) (now : Nat) (recv : SaveSnapshotReq) (conversation : String)
    (entry : HostPoolEntry τ) (store : SnapshotKey → Option (StoredSnapshot τ)) : Prop :=
  (∃ old, store ⟨conversation, .turn 0⟩ = some old ∧ old.convStates = entry.convStates ∧
      old.temporalStates = entry.temporalStates) ∧
    store ⟨conversation, .turn (entry.restored.metadata.turnNumber.getD 0)⟩ =
      some (recv.warmSnapshot server now conversation entry.restored)

theorem onDisk_of_saved {baseDir : Path} (onDisk : OnDisk baseDir fs store) {key : SnapshotKey}
    (named : snapshot.key = some key)
    (returned : (saveSnapshot baseDir fault snapshot.convStates snapshot.temporalStates
      snapshot.metadata fs).1.isOk = true) :
    OnDisk baseDir (saveSnapshot baseDir fault snapshot.convStates snapshot.temporalStates
      snapshot.metadata fs).2 (Function.update store key (some snapshot)) := by
  obtain ⟨rfl, -⟩ := (saveSnapshot_isOk_iff baseDir fault snapshot fs).mp returned
  rcases onDisk.save snapshot with ⟨error, fs', raised, -⟩ | ⟨paths, fs', key', saved, named', -, -,
    after⟩
  · rw [raised] at returned
    cases returned
  · cases named.symm.trans named'
    rw [saved]
    exact after

theorem ReplacesTurnZero.saves
    (replaces : ReplacesTurnZero server cfg fault now s recv conversation entry)
    (onDisk : OnDisk cfg.baseDir s.tiers.disk store) :
    (handleSaveSnapshot server cfg fault now s recv).1.success = true ∧
      OnDisk cfg.baseDir (handleSaveSnapshot server cfg fault now s recv).2.disk
        (Function.update store
          ⟨conversation, .turn (entry.restored.metadata.turnNumber.getD 0)⟩
          (some (recv.warmSnapshot server now conversation entry.restored))) := by
  obtain ⟨tiers, disk, path⟩ := replaces.warm.saveFromWarm_eq server fault now
  have handled : handleSaveSnapshot server cfg fault now s recv =
      persist cfg fault (recv.warmSnapshot server now conversation entry.restored) tiers
        (.savedFromWarm recv.effectiveSnapshotId) := by
    rw [← path]
    simp only [handleSaveSnapshot, replaces.snapshotManager, replaces.warm.missing,
      Bool.true_eq_false, if_false]
  have key := recv.warmSnapshot_key_of_zero replaces.zero entry.restored server now conversation
  have returned := (saveSnapshot_isOk_iff cfg.baseDir fault
    (recv.warmSnapshot server now conversation entry.restored) tiers.disk).mpr
      ⟨replaces.diskWorks, replaces.storable, _, key, replaces.sanitized, replaces.recorded.le⟩
  rw [handled, persist_disk]
  constructor
  · unfold persist
    split
    · next raised =>
      rw [raised] at returned
      cases returned
    · rfl
  · apply onDisk_of_saved _ key returned
    rw [disk]
    exact onDisk

theorem ReplacesTurnZero.of_returned
    (success : (handleSaveSnapshot server cfg fault now s recv).1.success = true)
    (warm : FoundWarm cfg s recv conversation entry)
    (zero : selectorOf recv.turnNumber recv.branchName = some (.turn 0))
    (other : entry.restored.metadata.turnNumber.getD 0 ≠ 0)
    (returned : (saveSnapshot cfg.baseDir fault
      (recv.warmSnapshot server now conversation entry.restored).convStates
      (recv.warmSnapshot server now conversation entry.restored).temporalStates
      (recv.warmSnapshot server now conversation entry.restored).metadata
      s.tiers.disk).1.isOk = true) :
    ReplacesTurnZero server cfg fault now s recv conversation entry := by
  obtain ⟨diskWorks, storable, key, isKey, sanitized, notNegative⟩ :=
    (saveSnapshot_isOk_iff cfg.baseDir fault _ s.tiers.disk).mp returned
  cases (recv.warmSnapshot_key_of_zero zero entry.restored server now conversation).symm.trans isKey
  have snapshotManager : s.snapshotManager = true := by
    by_contra disabled
    rw [handleSaveSnapshot, if_pos (by simpa using disabled)] at success
    cases success
  exact ⟨snapshotManager, warm, zero, lt_of_le_of_ne notNegative other.symm, diskWorks, sanitized,
    storable⟩

theorem onDisk_unique {baseDir : Path} {store' : SnapshotKey → Option (StoredSnapshot τ)}
    (onDisk : OnDisk baseDir fs store) (onDisk' : OnDisk baseDir fs store') : store = store' := by
  funext ⟨cid, selector⟩
  -- every key but those of an empty branch name is the key of a load
  by_cases loadable : ∃ turnNumber branchName, selectorOf turnNumber branchName = some selector
  · obtain ⟨turnNumber, branchName, selected⟩ := loadable
    have answer := onDisk.load_toOption cid turnNumber branchName
    have answer' := onDisk'.load_toOption cid turnNumber branchName
    simp only [keyOf, selected] at answer answer'
    exact answer.symm.trans answer'
  have refused : ¬ SnapshotKey.Accepted ⟨cid, selector⟩ := by
    rintro ⟨-, accepted⟩
    apply loadable
    cases selector with
    | turn number => exact ⟨some number, none, rfl⟩
    | branch name => exact ⟨none, some name, selectorOf_branch accepted.1 none⟩
  have absent : ∀ {other : SnapshotKey → Option (StoredSnapshot τ)},
      OnDisk baseDir fs other → other ⟨cid, selector⟩ = none := by
    intro other isOnDisk
    rw [← Option.not_isSome_iff_eq_none]
    exact fun stored => refused (isOnDisk.accepted stored)
  rw [absent onDisk, absent onDisk']

/-- An explicit key is honoured exactly unless turn `0` is asked for and the state comes
    from the warm tier with another turn. -/
theorem explicit_key_honoured_iff (server : Server) (cfg : TierConfig) (fault : Option SaveFault)
    (now : Nat) (s : Saving τ) (recv : SaveSnapshotReq) {selector : Selector}
    (named : selectorOf recv.turnNumber recv.branchName = some selector)
    {store : SnapshotKey → Option (StoredSnapshot τ)}
    (onDisk : OnDisk cfg.baseDir s.tiers.disk store) :
    Honoured server cfg fault now s recv selector store ↔
      ∀ conversation entry, ReplacesTurnZero server cfg fault now s recv conversation entry →
        AlreadyStored server now recv conversation entry store := by
  constructor
  · intro honoured conversation entry replaces
    obtain rfl : selector = .turn 0 := Option.some.inj (named.symm.trans replaces.zero)
    obtain ⟨success, saved⟩ := replaces.saves onDisk
    obtain ⟨conversation', snapshot, effective, served, after⟩ := honoured success
    cases replaces.warm.effective.symm.trans effective
    rw [replaces.warm.served] at served
    have same := onDisk_unique after saved
    have different : (⟨conversation, .turn 0⟩ : SnapshotKey) ≠
        ⟨conversation, .turn (entry.restored.metadata.turnNumber.getD 0)⟩ := by
      have recorded := replaces.recorded
      simp only [ne_eq, SnapshotKey.mk.injEq, Selector.turn.injEq, true_and]
      omega
    constructor
    · refine ⟨snapshot, ?_, ?_⟩
      · have atZero := congrFun same ⟨conversation, .turn 0⟩
        rw [update_self, update_of_ne different] at atZero
        exact atZero.symm
      · obtain ⟨conv, temporal⟩ := Prod.mk.inj (Option.some.inj served)
        exact ⟨conv.symm, temporal.symm⟩
    · have atRecorded := congrFun same
        ⟨conversation, .turn (entry.restored.metadata.turnNumber.getD 0)⟩
      rw [update_self, update_of_ne different.symm] at atRecorded
      exact atRecorded
  · intro already success
    obtain ⟨snapshot, offered, returned, disk⟩ := handleSaveSnapshot_success success
    cases offered with
    | @live conversation req slot row state effective live =>
      refine ⟨conversation, recv.liveSnapshot server now conversation req slot row state, effective,
        live.served, ?_⟩
      rw [disk]
      exact onDisk_of_saved onDisk (recv.liveSnapshot_key named server now conversation req slot
        row state) returned
    | @warm conversation entry warm =>
      by_cases kept : selector = .turn 0 → entry.restored.metadata.turnNumber.getD 0 = 0
      · refine ⟨conversation, recv.warmSnapshot server now conversation entry.restored,
          warm.effective, warm.served, ?_⟩
        rw [disk]
        exact onDisk_of_saved onDisk (recv.warmSnapshot_key named kept server now conversation)
          returned
      obtain ⟨rfl, other⟩ := Classical.not_imp.mp kept
      have replaces : ReplacesTurnZero server cfg fault now s recv conversation entry :=
        .of_returned success warm named other returned
      obtain ⟨⟨old, stored, conv, temporal⟩, unchanged⟩ := already conversation entry replaces
      refine ⟨conversation, old, warm.effective, ?_, ?_⟩
      · rw [warm.served, conv, temporal]
      · -- neither of the two writes changes the store
        have saved := (replaces.saves onDisk).2
        rw [← stored, update_eq_self]
        rwa [← unchanged, update_eq_self] at saved

end Saved

def warmOnly : Saving IntTensor :=
  let spec : TensorSpec := ⟨.float32, [1]⟩
  let tensor : IntTensor := ⟨.float32, [1], [5]⟩
  { scheduling := ⟨.initial 1 [spec] spec 1, []⟩
    tiers := (saveToWarmTier { baseDir := ["base"] } "c"
      { convStates := [tensor], temporalStates := tensor,
        metadata := some { turnNumber := some 7 } }
      .raise 0 {}).2 }

theorem warmOnly_onDisk : OnDisk ["base"] warmOnly.tiers.disk (fun _ => none) := by
  exact .empty

theorem explicit_turn_honoured_from_warm :
    let server : Server := { modelPath := "m", numMambaLayers := 1 }
    let recv : SaveSnapshotReq := { rid := some "c", turnNumber := some 3 }
    let cfg : TierConfig := { baseDir := ["base"] }
    (handleSaveSnapshot server cfg none 9 warmOnly recv).1 = .savedFromWarm "c-t3" ∧
      Honoured server cfg none 9 warmOnly recv (.turn 3) (fun _ => none) := by
  intro server recv cfg
  refine ⟨by decide +kernel, ?_⟩
  apply (explicit_key_honoured_iff server cfg none 9 warmOnly recv rfl warmOnly_onDisk).mpr
  intro conversation entry replaces
  cases replaces.zero

/-- Turn `0` is saved as turn 7. -/
theorem explicit_turn_zero_lost :
    let server : Server := { modelPath := "m", numMambaLayers := 1 }
    let recv : SaveSnapshotReq := { rid := some "c", turnNumber := some 0 }
    let cfg : TierConfig := { baseDir := ["base"] }
    let result := handleSaveSnapshot server cfg none 9 warmOnly recv
    result.1 = .savedFromWarm "c-t0" ∧
      (loadSnapshot ["base"] "c" (some 7) none result.2.disk).1.isOk = true ∧
      ¬ Honoured server cfg none 9 warmOnly recv (.turn 0) (fun _ => none) := by
  intro server recv cfg result
  have replied : result.1 = .savedFromWarm "c-t0" := by decide +kernel
  refine ⟨replied, by decide +kernel, ?_⟩
  intro honoured
  obtain ⟨conversation, snapshot, effective, -, after⟩ := honoured (by rw [replied]; rfl)
  have same : conversation = "c" := (Option.some.inj effective).symm
  subst same
  have answer := after.load_toOption "c" (some 0) none
  have missing : (loadSnapshot ["base"] "c" (some 0) none result.2.disk).1.toOption = none := by
    decide +kernel
  cases answer.symm.trans missing

end Engram.Tier
