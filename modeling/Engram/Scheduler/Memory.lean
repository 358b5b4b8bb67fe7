import Engram.Lib.Ownership
import Engram.Memory.MambaPool
import Engram.Memory.PrefixCache
import Engram.Scheduler.Request

/-!
# The memory of the scheduler

The Mamba pool, the rows of `ReqToTokenPool` and the Mamba states kept by the
prefix cache, with the operations of `mem_cache/common.py` and
`mem_cache/mamba_radix_cache.py` that move a slot from one of them to another or
to a request. Of the radix tree the model keeps the slots its nodes own, least
recently used first; what a lookup or an insertion finds in the tree is an
argument. On a server with `enable_mamba_extra_buffer` a request in a batch has a
ping-pong buffer, of which it donates a slot where it would donate its own. The row
of a request maps to the buffer the request has, so the mapping of the pool has no
counterpart. KV indices are left out.
-/

namespace Engram.Scheduler

open Lib Memory Snapshot

/-- The failed assertions and uncaught exceptions that stop the scheduler. -/
inductive Fault where
  /-- "Only MambaRadixCache allow freeing before alloc" -/
  | onlyMambaRadixCache
  /-- "mamba state is freed while the tree cache does not manage mamba states" -/
  | mambaStateFreed
  /-- "double free? mamba_index is None" -/
  | doubleFree
  /-- "Can not alloc mamba cache" -/
  | canNotAllocMambaCache
  /-- "Not enough space for mamba cache, …" -/
  | notEnoughMambaSpace
  /-- "Not enough space for mamba ping pong idx, …" -/
  | notEnoughTrackSpace
  /-- "alloc_req_slots runs out of memory. …" -/
  | outOfRequestRows
  /-- `None` used as a slot index -/
  | noMambaState
  /-- `assert self.chunked_req is None` -/
  | chunkedReqPresent
  /-- `max` of an empty waiting queue -/
  | emptyWaitingQueue
deriving DecidableEq, Repr

structure Memory (τ : Type) where
  pool : MambaPool τ
  /-- `free_slots` of `ReqToTokenPool` -/
  freeRows : List Nat
  /-- the Mamba values of the tree's nodes, least recently used first -/
  tree : List Nat

namespace Memory

variable {τ : Type}

/-- A use of the tree changes the order of its nodes only. -/
def touch (mem : Memory τ) (lru : List Nat) : Memory τ :=
  if lru.isPerm mem.tree then { mem with tree := lru } else mem

def evictFrom (locked : List Nat) : Nat → List Nat → List Nat × List Nat
  | 0, tree => (tree, [])
  | _ + 1, [] => ([], [])
  | n + 1, slot :: tree =>
    if slot ∈ locked then
      let (kept, evicted) := evictFrom locked (n + 1) tree
      (slot :: kept, evicted)
    else
      let (kept, evicted) := evictFrom locked n tree
      (kept, slot :: evicted)

def evict (mem : Memory τ) (locked : List Nat) (mambaNum : Nat) : Memory τ :=
  let (kept, evicted) := evictFrom locked mambaNum mem.tree
  { mem with tree := kept, pool := mem.pool.free evicted }

/-- `mamba_pool.alloc(1)`. -/
def allocSlot (mem : Memory τ) : Option (Nat × Memory τ) :=
  match mem.pool.alloc 1 with
  | some ([slot], pool) => some (slot, { mem with pool })
  | _ => none

/-- `_alloc_mamba_slot`, and the same lines in `_match_post_processor`: evict one
    node when no slot is free. -/
def allocMambaSlot (mem : Memory τ) (locked : List Nat) : Except Fault (Nat × Memory τ) :=
  match mem.allocSlot with
  | some (slot, mem) => .ok (slot, mem)
  | none =>
    match (mem.evict locked 1).allocSlot with
    | some (slot, mem) => .ok (slot, mem)
    | none => .error .canNotAllocMambaCache

def freeSlots (mem : Memory τ) (slots : List Nat) : Memory τ :=
  { mem with pool := mem.pool.free slots }

def freeSlot (mem : Memory τ) (slot : Nat) : Memory τ :=
  mem.freeSlots [slot]

end Memory

section Operations

variable {τ : Type}

/-- What `match_prefix` finds for a request: the length of the prefix, the slot of
    the last node, if that node has one, and the order of the nodes afterwards. -/
structure Match where
  prefixLen : Nat := 0
  slot : Option Nat := none
  lru : List Nat := []
deriving DecidableEq, Repr

def Match.node (hit : Match) (cache : TreeCache) (mem : Memory τ) : Option Nat :=
  if cache.keepsMamba then hit.slot.filter (· ∈ mem.tree) else none

/-- `init_next_round_input` with a tree: a match with a Mamba state gives the
    request a slot, if it has none, and plans the copy of the node's state into it.
    A cache that keeps no Mamba states returns a prefix and leaves the slot alone. -/
def initNextRoundInput (cache : TreeCache) (locked : List Nat) (mem : Memory τ) (req : Req)
    (hit : Match) : Except Fault (Memory τ × Req) :=
  let req := req.resetFillIds
  match hit.node cache mem with
  | none =>
    -- a miss in a tree with Mamba states is a match of length 0 at the root
    let found := if cache.keepsPrefixes && !cache.supportsMamba then hit.prefixLen else 0
    .ok (mem, { req with prefixLen := found })
  | some node =>
    let mem := mem.touch hit.lru
    let req := { req with
      prefixLen := hit.prefixLen, mambaCowSrcIndex := some node, mambaNeedsClear := false }
    if req.mambaPoolIdx.isSome then .ok (mem, req)
    else do
      let (slot, mem) ← mem.allocMambaSlot (node :: locked)
      .ok (mem, { req with mambaPoolIdx := some slot })

def Req.trackBufferToFree (req : Req) (toKeep : Option Nat) : List Nat :=
  match req.mambaPingPongTrackBuffer, toKeep with
  | none, _ => []
  | some buffer, none => buffer.slots
  | some buffer, some idx => buffer.others idx

def freeMambaCache (mem : Memory τ) (req : Req) (toKeep : Option Nat) :
    Except Fault (Memory τ × Req) :=
  match req.mambaPoolIdx with
  | none => .error .doubleFree
  | some slot =>
    .ok ((mem.freeSlot slot).freeSlots (req.trackBufferToFree toKeep),
      { req with mambaPoolIdx := none })

def Memory.donate (mem : Memory τ) (slot : Nat) : Memory τ :=
  { mem with tree := mem.tree ++ [slot] }

/-- `cache_finished_req`. A tree that keeps Mamba states takes the slot of an
    inserted request over, unless the node it ends in has a state already; the
    request still names the slot then. A request with a ping-pong buffer donates the
    slot of the last tracked state instead and always gives back its own. -/
def cacheFinishedReq (cache : TreeCache) (mem : Memory τ) (req : Req) (isInsert : Bool)
    (mambaExist : Bool) : Except Fault (Memory τ × Req) :=
  if ¬ cache.supportsMamba then .ok (mem, req)
  else if cache.disable then freeMambaCache mem req none
  else
    let req := { req with lockedSlot := none }
    match req.mambaPingPongTrackBuffer with
    | none =>
      if isInsert && !mambaExist then
        match req.mambaPoolIdx with
        | none => .error .noMambaState
        | some slot => .ok (mem.donate slot, req)
      else freeMambaCache mem req none
    | some buffer =>
      let toKeep := buffer.otherIdx req.mambaNextTrackIdx
      -- with no tracked state the key is empty, and an insertion of it finds the root
      if isInsert && !mambaExist && req.mambaLastTrackSeqlen.isSome then
        freeMambaCache (mem.donate (buffer.get toKeep)) req (some toKeep)
      else freeMambaCache mem req none

/-- The end of `release_kv_cache`: a cache that does not manage Mamba states has left
    the slot to be freed. -/
def freeUnmanaged (cache : TreeCache) (mem : Memory τ) (req : Req) :
    Except Fault (Memory τ × Req) :=
  if cache.supportsMamba then .ok (mem, req)
  else if req.mambaPoolIdx.isNone then .error .mambaStateFreed
  else freeMambaCache mem req none

def releaseKvCache (cache : TreeCache) (mem : Memory τ) (req : Req) (isInsert : Bool)
    (mambaExist : Bool) : Except Fault (Memory τ × Req) :=
  match req.reqPoolIdx with
  | none =>
    if ¬ cache.supportsMamba then .error .onlyMambaRadixCache
    else
      match req.mambaPoolIdx with
      | none => .ok (mem, req)
      | some slot => .ok (mem.freeSlot slot, { req with mambaPoolIdx := none })
  | some row => do
    let (mem, req) ← cacheFinishedReq cache mem req isInsert mambaExist
    let (mem, req) ← freeUnmanaged cache mem req
    .ok ({ mem with freeRows := mem.freeRows ++ [row] }, { req with reqPoolIdx := none })

/-- The insertion of a donated slot: a node that has a state already (`existing`) does
    without it. The lock of the request moves to the node. -/
def insertDonated (mem : Memory τ) (req : Req) (donated : Nat) (existing : Option Nat) :
    Memory τ × Req :=
  match existing.filter (· ∈ mem.tree) with
  | some node => (mem.freeSlot donated, { req with lockedSlot := some node })
  | none => (mem.donate donated, { req with lockedSlot := some donated })

/-- `cache_unfinished_req`. A request donates a copy of its state to a tree that keeps
    Mamba states, in a new slot; with a ping-pong buffer it donates the slot of the last
    tracked state, if there is one, and the new slot takes its place. -/
def cacheUnfinishedReq (cache : TreeCache) (locked : List Nat) (mem : Memory τ) (req : Req)
    (existing : Option Nat) (lru : List Nat) : Except Fault (Memory τ × Req) :=
  let req := { req with prefixLen := req.fillIds.length }
  if ¬ cache.keepsMamba then .ok (mem, req)
  else
    match req.mambaPingPongTrackBuffer with
    | none =>
      match req.mambaPoolIdx with
      | none => .error .noMambaState
      | some own => do
        let (donated, mem) ← (mem.touch lru).allocMambaSlot locked
        let mem := { mem with pool := mem.pool.copyFrom own donated }
        .ok (insertDonated mem req donated existing)
    | some buffer =>
      if req.mambaLastTrackSeqlen.isNone then .ok (mem, req)
      else do
        let idx := buffer.otherIdx req.mambaNextTrackIdx
        let (slot, mem) ← (mem.touch lru).allocMambaSlot locked
        let req := { req with
          mambaPingPongTrackBuffer := some (buffer.set idx slot), mambaLastTrackSeqlen := none }
        .ok (insertDonated mem req (buffer.get idx) existing)

end Operations

end Engram.Scheduler
