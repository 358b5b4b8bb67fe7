import Engram.Snapshot.Store

/-!
# The host memory pool

`MambaHostPool` keeps conversation states in the order of their last use and evicts the
oldest ones to stay within its limits. Copies to the CPU and clones keep the values of a
tensor, so they do not appear.
-/

namespace Engram.Snapshot

/-- A metadata dictionary. An entry is `none` where the key is missing; for the last four
    keys of `to_dict` also where it holds `None`. -/
structure MetadataDict where
  conversationId : Option String := none
  turnNumber : Option Int := none
  timestamp : Option Nat := none
  tokenCount : Option Nat := none
  modelName : Option String := none
  mambaPoolIdx : Option Int := none
  reqPoolIdx : Option Int := none
  layerConfig : Option (List (String × ConfigValue)) := none
  activeToolContext : Option String := none
  branchName : Option String := none
  parentSnapshot : Option String := none
  fillIds : Option (List Nat) := none
  /-- keys that `MambaSnapshotMetadata` does not have -/
  extra : List (String × ConfigValue) := []
deriving DecidableEq, Repr

def MambaSnapshotMetadata.toDict (metadata : MambaSnapshotMetadata) : MetadataDict where
  conversationId := some metadata.conversationId
  turnNumber := some metadata.turnNumber
  timestamp := some metadata.timestamp
  tokenCount := some metadata.tokenCount
  modelName := some metadata.modelName
  mambaPoolIdx := some metadata.mambaPoolIdx
  reqPoolIdx := some metadata.reqPoolIdx
  layerConfig := some metadata.layerConfig
  activeToolContext := metadata.activeToolContext
  branchName := metadata.branchName
  parentSnapshot := metadata.parentSnapshot
  fillIds := metadata.fillIds

end Engram.Snapshot

namespace Engram.Tier

open Lib Snapshot

variable {τ : Type}

structure HostPoolEntry (τ : Type) where
  convStates : List τ
  temporalStates : τ
  metadata : Option MetadataDict := none
deriving DecidableEq

def HostPoolEntry.memoryBytes [Torch τ] (entry : HostPoolEntry τ) : Nat :=
  (entry.convStates.map (fun conv => Torch.elementSize conv * numel conv)).sum +
    Torch.elementSize entry.temporalStates * numel entry.temporalStates

structure HostPoolLimits where
  maxConversations : Int := 100
  maxMemoryBytes : Int := 10 * 1024 * 1024 * 1024
  enableCrossSessionRefs : Bool := true
deriving DecidableEq, Repr

structure MambaHostPool (τ : Type) where
  pool : OrderedDict String (HostPoolEntry τ) := .empty
  currentMemoryBytes : Int := 0
deriving DecidableEq

structure Restored (τ : Type) where
  convStates : List τ
  temporalStates : τ
  metadata : MetadataDict
deriving DecidableEq

/-- `entry.metadata or {}`. -/
def HostPoolEntry.restored (entry : HostPoolEntry τ) : Restored τ where
  convStates := entry.convStates
  temporalStates := entry.temporalStates
  metadata := entry.metadata.getD {}

namespace MambaHostPool

def HasRoom (limits : HostPoolLimits) (entrySize : Nat) (host : MambaHostPool τ) : Prop :=
  ¬ (limits.maxConversations ≤ host.pool.size ∨
    limits.maxMemoryBytes < host.currentMemoryBytes + entrySize)
deriving Decidable

def hasState (conversationId : String) (host : MambaHostPool τ) : Bool :=
  conversationId ∈ host.pool

section Operations

variable [Torch τ]

def evictLru (host : MambaHostPool τ) : Option (MambaHostPool τ) :=
  match host.pool.first? with
  | none => none
  | some (conversationId, entry) =>
    some { pool := host.pool.erase conversationId
           currentMemoryBytes := host.currentMemoryBytes - entry.memoryBytes }

/-- The loop of `save_state`: whether it made room. Each round removes an entry, so `fuel`
    is the number of entries, and at `0` there is nothing left to evict. -/
def makeRoom (limits : HostPoolLimits) (entrySize : Nat) :
    Nat → MambaHostPool τ → Bool × MambaHostPool τ
  | 0, host => (host.HasRoom limits entrySize, host)
  | fuel + 1, host =>
    if host.HasRoom limits entrySize then (true, host)
    else
      match host.evictLru with
      | none => (false, host)
      | some host => makeRoom limits entrySize fuel host

def removeState (conversationId : String) (host : MambaHostPool τ) : Bool × MambaHostPool τ :=
  match host.pool.lookup conversationId with
  | none => (false, host)
  | some entry =>
    (true, { pool := host.pool.erase conversationId
             currentMemoryBytes := host.currentMemoryBytes - entry.memoryBytes })

def saveState (limits : HostPoolLimits) (conversationId : String) (entry : HostPoolEntry τ)
    (host : MambaHostPool τ) : Bool × MambaHostPool τ :=
  match host.makeRoom limits entry.memoryBytes host.pool.size with
  | (false, host) => (false, host)
  | (true, host) =>
    -- an old entry of the conversation goes first, so the new one is the newest
    let host := (host.removeState conversationId).2
    (true, { pool := host.pool.insert conversationId entry
             currentMemoryBytes := host.currentMemoryBytes + entry.memoryBytes })

end Operations

def getState (conversationId : String) (host : MambaHostPool τ) :
    Option (Restored τ) × MambaHostPool τ :=
  match host.pool.lookup conversationId with
  | none => (none, host)
  | some entry => (some entry.restored, { host with pool := host.pool.moveToEnd conversationId })

def getStateForReference (limits : HostPoolLimits)
    (_conversationId targetConversationId : String) (host : MambaHostPool τ) :
    Option (Restored τ) × MambaHostPool τ :=
  if limits.enableCrossSessionRefs = false then (none, host) else host.getState targetConversationId

/-! ### What the operations do to the entries -/

theorem hasState_eq (cid : String) (host : MambaHostPool τ) :
    host.hasState cid = (host.pool.lookup cid).isSome := by
  rw [hasState, Bool.eq_iff_iff, decide_eq_true_iff, OrderedDict.mem_iff_lookup,
    Option.isSome_iff_exists]

variable {cid : String} {host : MambaHostPool τ} {entry : HostPoolEntry τ}

theorem hasState_of_none (absent : host.pool.lookup cid = none) : host.hasState cid = false := by
  rw [hasState_eq, absent]
  rfl

theorem hasState_of_some (found : host.pool.lookup cid = some entry) :
    host.hasState cid = true := by
  rw [hasState_eq, found]
  rfl

theorem getState_of_none (absent : host.pool.lookup cid = none) :
    host.getState cid = (none, host) := by
  rw [getState, absent]

theorem getState_of_some (found : host.pool.lookup cid = some entry) :
    host.getState cid =
      (some entry.restored, { host with pool := host.pool.moveToEnd cid }) := by
  rw [getState, found]

section Entries

variable [Torch τ] {limits : HostPoolLimits}

@[simp] theorem removeState_lookup (cid other : String) (host : MambaHostPool τ) :
    (host.removeState cid).2.pool.lookup other =
      if other = cid then none else host.pool.lookup other := by
  unfold removeState
  split
  · next absent =>
    split
    · next same => rw [same, absent]
    · rfl
  · exact OrderedDict.lookup_erase ..

theorem makeRoom_of_hasRoom {entrySize : Nat} (room : host.HasRoom limits entrySize) (fuel : Nat) :
    host.makeRoom limits entrySize fuel = (true, host) := by
  cases fuel with
  | zero => rw [makeRoom, decide_eq_true room]
  | succ fuel => rw [makeRoom, if_pos room]

theorem saveState_of_hasRoom (room : host.HasRoom limits entry.memoryBytes) (cid : String) :
    (host.saveState limits cid entry).1 = true ∧
      ∀ other, (host.saveState limits cid entry).2.pool.lookup other =
        if other = cid then some entry else host.pool.lookup other := by
  rw [saveState, makeRoom_of_hasRoom room]
  refine ⟨rfl, ?_⟩
  intro other
  rw [OrderedDict.lookup_insert]
  split
  · rfl
  · next different => rw [removeState_lookup, if_neg different]

end Entries

end MambaHostPool

end Engram.Tier
