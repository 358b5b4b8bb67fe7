import Engram.Snapshot.Listing

/-!
# Retention

`prune_old_snapshots`, `create_branch` and `cleanup_all_snapshots` of
`SnapshotRetentionPolicy`. An exception of a single deletion is logged and skipped.
-/

namespace Engram.Snapshot

open Lib

structure SnapshotRetentionConfig where
  maxSnapshotsPerConversation : Int := 10
  enableAutoPruning : Bool := true
deriving DecidableEq, Repr

variable {τ : Type} (baseDir : Path)

structure DeleteArgs where
  turnNumber : Option Int := none
  branchName : Option String := none
deriving DecidableEq, Repr

/-- The deletion loops: how many deletions went through. -/
def deleteEach (conversationId : String) :
    List DeleteArgs → FileSystem (Content τ) → Nat × FileSystem (Content τ)
  | [], fs => (0, fs)
  | args :: rest, fs =>
    match deleteSnapshot baseDir conversationId args.turnNumber args.branchName fs with
    | (.ok _, fs) =>
      let (deleted, fs) := deleteEach conversationId rest fs
      (deleted + 1, fs)
    | (.error _, fs) => deleteEach conversationId rest fs

/-- `prune_old_snapshots`: the lowest turns go until the limit is met. -/
def pruneOldSnapshots (config : SnapshotRetentionConfig) (conversationId : String)
    (fs : FileSystem (Content τ)) : Except StoreError Nat × FileSystem (Content τ) :=
  if config.enableAutoPruning = false then (.ok 0, fs)
  else
    match listSnapshots baseDir conversationId fs with
    | (.error error, fs) => (.error error, fs)
    | (.ok snapshots, fs) =>
      if snapshots.length ≤ config.maxSnapshotsPerConversation then (.ok 0, fs)
      else
        let toDelete := snapshots.length - config.maxSnapshotsPerConversation
        let (deleted, fs) := deleteEach baseDir conversationId
          (((sortedTurns snapshots).take toDelete.toNat).map
            (fun turn => { turnNumber := some turn }))
          fs
        (.ok deleted, fs)

def branchMetadata (conversationId branchName : String) (sourceTurn : Int) (now : Nat)
    (source : MambaSnapshotMetadata) : MambaSnapshotMetadata where
  conversationId := conversationId
  turnNumber := source.turnNumber
  timestamp := now
  tokenCount := source.tokenCount
  modelName := source.modelName
  mambaPoolIdx := source.mambaPoolIdx
  reqPoolIdx := source.reqPoolIdx
  layerConfig := source.layerConfig
  branchName := some branchName
  parentSnapshot := some ("turn_" ++ toString sourceTurn)

section Branch

variable [Torch τ]

def branchFrom (conversationId branchName : String) (sourceTurn : Int) (now : Nat)
    (fs : FileSystem (Content τ)) : Bool × FileSystem (Content τ) :=
  match loadSnapshot baseDir conversationId (some sourceTurn) none fs with
  | (.error _, fs) => (false, fs)
  | (.ok source, fs) =>
    match saveSnapshot baseDir none source.convStates source.temporalStates
        (branchMetadata conversationId branchName sourceTurn now source.metadata) fs with
    | (.error _, fs) => (false, fs)
    | (.ok _, fs) => (true, fs)

def createBranch (conversationId branchName : String) (sourceTurn : Option Int) (now : Nat)
    (fs : FileSystem (Content τ)) : Except StoreError Bool × FileSystem (Content τ) :=
  match sourceTurn with
  | some turn =>
    let (created, fs) := branchFrom baseDir conversationId branchName turn now fs
    (.ok created, fs)
  | none =>
    match getLatestSnapshot baseDir conversationId fs with
    | (.error error, fs) => (.error error, fs)
    | (.ok none, fs) => (.ok false, fs)
    | (.ok (some (turn, _)), fs) =>
      let (created, fs) := branchFrom baseDir conversationId branchName turn now fs
      (.ok created, fs)

end Branch

/-- `cleanup_all_snapshots`: the listed turns, then the listed branches. -/
def cleanupAllSnapshots (conversationId : String) (fs : FileSystem (Content τ)) :
    Except StoreError Nat × FileSystem (Content τ) :=
  match listSnapshots baseDir conversationId fs with
  | (.error error, fs) => (.error error, fs)
  | (.ok turns, fs) =>
    let (deletedTurns, fs) := deleteEach baseDir conversationId
      (turns.map (fun turn => { turnNumber := some turn })) fs
    match listBranches baseDir conversationId fs with
    | (.error error, fs) => (.error error, fs)
    | (.ok branches, fs) =>
      let (deletedBranches, fs) := deleteEach baseDir conversationId
        (branches.map (fun branch => { branchName := some branch })) fs
      (.ok (deletedTurns + deletedBranches), fs)

end Engram.Snapshot
