import Engram.Scheduler.Request
import Engram.Snapshot.Retention
import Engram.Tier.HostPool
import Engram.Tier.Tracker

/-!
# The tier manager

`TierManager` of `tier_manager.py` over the host pool, the tracker and the snapshot store,
the startup restore, and the tier transition of the agent API. Each operation holds the
lock of the manager, so operations do not interleave. The disk fails only where a `fault`
is given.
-/

namespace Engram.Tier

open Lib Snapshot

variable {τ : Type}

structure TierConfig where
  baseDir : Path
  /-- the running model -/
  modelPath : Key := none
  limits : HostPoolLimits := {}
  timeouts : Timeouts := {}

structure TierState (τ : Type) where
  tracker : ConversationTracker := {}
  hostPool : MambaHostPool τ := {}
  disk : FileSystem (Content τ) := .empty

/-- How a save to the warm tier treats tensors that fail validation. -/
inductive ValidationPolicy where
  | logAndContinue
  | raise
deriving DecidableEq, Repr

/-- Both models are known and differ. -/
def TierConfig.modelMismatch (cfg : TierConfig) (modelName : Key) : Bool :=
  cfg.modelPath.truthy && modelName.truthy && modelName != cfg.modelPath

def TierConfig.mismatchError (cfg : TierConfig) (modelName : Key) : StoreError :=
  .valueError ("Model mismatch: snapshot from '" ++ modelName.getD "" ++ "', server running '" ++
    cfg.modelPath.getD "" ++ "'")

def demotedMetadata (conversationId : String) (now : Nat) (metadata : MetadataDict) :
    MambaSnapshotMetadata where
  conversationId := conversationId
  turnNumber := metadata.turnNumber.getD 0
  timestamp := now
  tokenCount := metadata.tokenCount.getD 0
  modelName := metadata.modelName.getD "unknown"
  mambaPoolIdx := metadata.mambaPoolIdx.getD 0
  reqPoolIdx := metadata.reqPoolIdx.getD 0
  layerConfig := metadata.layerConfig.getD []

def demoted (conversationId : String) (now : Nat) (restored : Restored τ) : StoredSnapshot τ where
  convStates := restored.convStates
  temporalStates := restored.temporalStates
  metadata := demotedMetadata conversationId now restored.metadata

def propagate {α : Type} : StoreError → Except StoreError (Option α)
  | .valueError message => .error (.valueError message)
  | .snapshotValidationError message => .error (.snapshotValidationError message)
  | .fileNotFoundError _ => .ok none
  | .ioError _ => .ok none

section Operations

variable [Torch τ] (cfg : TierConfig)

def saveToWarmTier (conversationId : String) (entry : HostPoolEntry τ)
    (validationPolicy : ValidationPolicy) (now : Nat) (s : TierState τ) :
    Except StoreError Bool × TierState τ :=
  let validation := validateStateTensors entry.convStates entry.temporalStates none false
  if validation.isValid = false then
    match validationPolicy with
    | .raise =>
      (.error (.snapshotValidationError ("Warm-tier save rejected for " ++ conversationId ++ ": " ++
        "; ".intercalate validation.errors)), s)
    | .logAndContinue => (.ok false, s)
  else
    match s.hostPool.saveState cfg.limits conversationId entry with
    | (false, hostPool) => (.ok false, { s with hostPool })
    | (true, hostPool) =>
      let tracker :=
        if (s.tracker.getState conversationId).isNone then
          s.tracker.registerConversation conversationId .warm now
        else (s.tracker.transitionTier conversationId .warm).2
      (.ok true, { s with hostPool, tracker })

def saveToColdTier (conversationId : String) (snapshot : StoredSnapshot τ) (s : TierState τ)
    (fault : Option SaveFault := none) : Bool × TierState τ :=
  match saveSnapshot cfg.baseDir fault snapshot.convStates snapshot.temporalStates
      snapshot.metadata s.disk with
  | (.error _, disk) => (false, { s with disk })
  | (.ok _, disk) =>
    (true, { s with disk, tracker := (s.tracker.transitionTier conversationId .cold).2 })

omit [Torch τ] in
def restoreFromWarmTier (conversationId : String) (now : Nat) (s : TierState τ) :
    Except StoreError (Option (Restored τ)) × TierState τ :=
  match s.hostPool.getState conversationId with
  | (none, hostPool) => (.ok none, { s with hostPool })
  | (some restored, hostPool) =>
    if cfg.modelMismatch restored.metadata.modelName then
      (.error (cfg.mismatchError restored.metadata.modelName), { s with hostPool })
    else
      (.ok (some restored),
        { s with hostPool, tracker := s.tracker.markAccessed conversationId now })

def restoreTurn (conversationId : String) (turnNumber : Int) (now : Nat) (s : TierState τ) :
    Except StoreError (Option (StoredSnapshot τ)) × TierState τ :=
  match loadSnapshot cfg.baseDir conversationId (some turnNumber) none s.disk with
  | (.error error, disk) => (propagate error, { s with disk })
  | (.ok snapshot, disk) =>
    if cfg.modelMismatch (some snapshot.metadata.modelName) then
      (.error (cfg.mismatchError (some snapshot.metadata.modelName)), { s with disk })
    else
      (.ok (some snapshot),
        { s with disk, tracker := s.tracker.markAccessed conversationId now })

def restoreFromColdTier (conversationId : String) (turnNumber : Option Int) (now : Nat)
    (s : TierState τ) : Except StoreError (Option (StoredSnapshot τ)) × TierState τ :=
  match turnNumber with
  | some turnNumber => restoreTurn cfg conversationId turnNumber now s
  | none =>
    match getLatestSnapshot cfg.baseDir conversationId s.disk with
    | (.error error, disk) => (propagate error, { s with disk })
    | (.ok none, disk) => (.ok none, { s with disk })
    | (.ok (some (turnNumber, _)), disk) =>
      restoreTurn cfg conversationId turnNumber now { s with disk }

omit [Torch τ] in
def promoted (snapshot : StoredSnapshot τ) : HostPoolEntry τ where
  convStates := snapshot.convStates
  temporalStates := snapshot.temporalStates
  metadata := some snapshot.metadata.toDict

/-- The cold branch of `restore_conversation`. -/
def restoreAndPromote (conversationId : String) (turnNumber : Option Int) (now : Nat)
    (s : TierState τ) : Except StoreError (Option (Restored τ)) × TierState τ :=
  match restoreFromColdTier cfg conversationId turnNumber now s with
  | (.error error, s) => (.error error, s)
  | (.ok none, s) => (.ok none, s)
  | (.ok (some snapshot), s) =>
    (.ok (some { convStates := snapshot.convStates, temporalStates := snapshot.temporalStates,
                 metadata := snapshot.metadata.toDict }),
      (saveToWarmTier cfg conversationId (promoted snapshot) .logAndContinue now s).2)

def restoreConversation (conversationId : String) (turnNumber : Option Int) (now : Nat)
    (s : TierState τ) : Except StoreError (Option (Restored τ)) × TierState τ :=
  let tier := s.tracker.getTier conversationId
  let warm :=
    if tier = some .warm ∨ s.hostPool.hasState conversationId then
      restoreFromWarmTier cfg conversationId now s
    else (.ok none, s)
  match warm with
  | (.error error, s) => (.error error, s)
  | (.ok (some restored), s) => (.ok (some restored), s)
  | (.ok none, s) =>
    if tier = some .cold ∨ turnNumber ≠ none then
      restoreAndPromote cfg conversationId turnNumber now s
    else (.ok none, s)

def loadCrossSessionReference (currentConversationId referenceConversationId : String)
    (now : Nat) (s : TierState τ) : Except StoreError (Option (Restored τ)) × TierState τ :=
  match s.hostPool.getStateForReference cfg.limits currentConversationId
      referenceConversationId with
  | (some restored, hostPool) => (.ok (some restored), { s with hostPool })
  | (none, hostPool) =>
    restoreConversation cfg referenceConversationId none now { s with hostPool }

def demoteToColdTier (conversationId : String) (now : Nat) (s : TierState τ)
    (fault : Option SaveFault := none) : Bool × TierState τ :=
  match s.hostPool.getState conversationId with
  | (none, hostPool) => (false, { s with hostPool })
  | (some restored, hostPool) =>
    match saveToColdTier cfg conversationId (demoted conversationId now restored)
        { s with hostPool } fault with
    | (false, s) => (false, s)
    | (true, s) => (true, { s with hostPool := (s.hostPool.removeState conversationId).2 })

/-! ### Cleanup, startup and the agent API -/

/-- The first loop of `run_cleanup_cycle`: how many demotions succeeded. -/
def demoteEach (now : Nat) : List String → TierState τ → Nat × TierState τ
  | [], s => (0, s)
  | conversationId :: rest, s =>
    let (demoted, s) := demoteToColdTier cfg conversationId now s
    let (count, s) := demoteEach now rest s
    (if demoted then count + 1 else count, s)

omit [Torch τ] in
def deleteUntilError (conversationId : String) :
    List Int → FileSystem (Content τ) → Bool × FileSystem (Content τ)
  | [], fs => (true, fs)
  | turn :: rest, fs =>
    match deleteSnapshot cfg.baseDir conversationId (some turn) none fs with
    | (.error _, fs) => (false, fs)
    | (.ok _, fs) => deleteUntilError conversationId rest fs

omit [Torch τ] in
def archive (conversationId : String) (s : TierState τ) : Bool × TierState τ :=
  match listSnapshots cfg.baseDir conversationId s.disk with
  | (.error _, disk) => (false, { s with disk })
  | (.ok turns, disk) =>
    match deleteUntilError cfg conversationId turns disk with
    | (false, disk) => (false, { s with disk })
    | (true, disk) =>
      (true, { s with disk, tracker := (s.tracker.transitionTier conversationId .archived).2 })

omit [Torch τ] in
def archiveEach : List String → TierState τ → Nat × TierState τ
  | [], s => (0, s)
  | conversationId :: rest, s =>
    let (archived, s) := archive cfg conversationId s
    let (count, s) := archiveEach rest s
    (if archived then count + 1 else count, s)

def runCleanupCycle (now : Nat) (s : TierState τ) : (Nat × Nat) × TierState τ :=
  let needed := s.tracker.checkTransitionsNeeded cfg.timeouts now
  let (warmToCold, s) := demoteEach cfg now needed.warmToCold s
  let (coldToArchived, s) := archiveEach cfg needed.coldToArchived s
  ((warmToCold, coldToArchived), s)

/-- One round of the startup restore; exceptions are logged. -/
def preload (conversationId : String) (now : Nat) (s : TierState τ) : Bool × TierState τ :=
  match getLatestSnapshot cfg.baseDir conversationId s.disk with
  | (.error _, disk) => (false, { s with disk })
  | (.ok none, disk) => (false, { s with disk })
  | (.ok (some (turnNumber, _)), disk) =>
    match restoreConversation cfg conversationId (some turnNumber) now { s with disk } with
    | (.ok (some _), s) => (true, s)
    | (_, s) => (false, s)

def preloadEach (now : Nat) : List String → TierState τ → Nat × TierState τ
  | [], s => (0, s)
  | conversationId :: rest, s =>
    let (restored, s) := preload cfg conversationId now s
    let (count, s) := preloadEach now rest s
    (if restored then count + 1 else count, s)

def restoreLatestSnapshotsToWarmTier (now : Nat) (s : TierState τ) : Nat × TierState τ :=
  preloadEach cfg now (listConversations cfg.baseDir s.disk) s

end Operations

inductive TransitionError where
  /-- 404 -/
  | notFound
  /-- 400 -/
  | badRequest
  /-- 500 -/
  | internalServerError
deriving DecidableEq, Repr

def tierTransition (conversationId targetTier : String) (s : TierState τ) :
    Except TransitionError (ConversationTier × ConversationTier) × TierState τ :=
  match s.tracker.getTier conversationId with
  | none => (.error .notFound, s)
  | some oldTier =>
    match ConversationTier.parse targetTier with
    | none => (.error .badRequest, s)
    | some target =>
      match s.tracker.transitionTier conversationId target with
      | (false, tracker) => (.error .internalServerError, { s with tracker })
      | (true, tracker) => (.ok (oldTier, target), { s with tracker })

/-! ### Calls -/

/-- The calls by which states enter the warm tier and move between the tiers. -/
inductive TierCall (τ : Type) where
  | saveToWarm (conversationId : String) (entry : HostPoolEntry τ) (policy : ValidationPolicy)
  | restoreFromWarm (conversationId : String)
  | restoreFromCold (conversationId : String) (turnNumber : Option Int)
  | restore (conversationId : String) (turnNumber : Option Int)
  | loadReference (currentConversationId referenceConversationId : String)
  | demote (conversationId : String)
  | cleanup

/-- Everything that changes the tiers while the server runs. -/
inductive SystemCall (τ : Type) where
  | manager (call : TierCall τ)
  | saveToCold (conversationId : String) (snapshot : StoredSnapshot τ)
  | startup
  | transition (conversationId targetTier : String)

/-- The state after a call; the caller sees the answer or the exception. -/
def TierCall.run [Torch τ] (cfg : TierConfig) (now : Nat) (s : TierState τ) :
    TierCall τ → TierState τ
  | .saveToWarm conversationId entry policy =>
    (saveToWarmTier cfg conversationId entry policy now s).2
  | .restoreFromWarm conversationId => (restoreFromWarmTier cfg conversationId now s).2
  | .restoreFromCold conversationId turnNumber =>
    (restoreFromColdTier cfg conversationId turnNumber now s).2
  | .restore conversationId turnNumber =>
    (restoreConversation cfg conversationId turnNumber now s).2
  | .loadReference current reference => (loadCrossSessionReference cfg current reference now s).2
  | .demote conversationId => (demoteToColdTier cfg conversationId now s).2
  | .cleanup => (runCleanupCycle cfg now s).2

def SystemCall.run [Torch τ] (cfg : TierConfig) (now : Nat) (s : TierState τ) :
    SystemCall τ → TierState τ
  | .manager call => call.run cfg now s
  | .saveToCold conversationId snapshot => (saveToColdTier cfg conversationId snapshot s).2
  | .startup => (restoreLatestSnapshotsToWarmTier cfg now s).2
  | .transition conversationId targetTier => (tierTransition conversationId targetTier s).2

/-- A call at a point in time; no call stops the server. -/
def systemStep [Torch τ] (cfg : TierConfig) (s : TierState τ) (event : Nat × SystemCall τ) :
    Except Empty (TierState τ) :=
  .ok (event.2.run cfg event.1 s)

def sampleEntry (value : Int) (turn : Option Int) : HostPoolEntry IntTensor where
  convStates := [⟨.float32, [1], [value]⟩]
  temporalStates := ⟨.float32, [1], [value]⟩
  metadata := turn.map (fun turn => { turnNumber := some turn, modelName := some "m" })

end Engram.Tier
