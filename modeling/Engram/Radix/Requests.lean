import Engram.Lib.Blocks
import Engram.Radix.Tree

/-!
# Requests that use the cache

The life of requests between the scheduler and `MambaRadixCache`: a request matches a prefix and
locks its node, is prefilled in chunks, decodes, and finishes or is retracted. On the way it owns
KV indices, which stand in its row of `req_to_token` behind the prefix of the tree, and slots of
the Mamba pool: its own state, and with the extra buffer one or two states tracked for the tree.
-/

namespace Engram.Radix

open Lib

/-- The server arguments that the code reads beside those of the cache. -/
structure ServerConfig extends CacheConfig where
  enableOverlapSchedule : Bool := true
  stripThinkingCache : Bool := false

def ServerConfig.mambaPingPongTrackBufferSize (cfg : ServerConfig) : Nat :=
  if cfg.enableOverlapSchedule then 2 else 1

/-- Where a request stands: in the waiting queue; in the batch that is put together, with its
    node locked; in a batch, with a row of `req_to_token` (`req_pool_idx`). -/
inductive Phase where
  | waiting
  | admitted
  | running
deriving DecidableEq, Repr

structure Req where
  originInputIds : List Nat := []
  outputIds : List Nat := []
  extraKey : Option String := none
  phase : Phase := .waiting
  reasoningTokens : Nat := 0
  fillIds : List Nat := []
  prefixIndices : List Nat := []
  lastNode : NodeId := rootNode
  cacheProtectedLen : Nat := 0
  /-- the row of `req_to_token`, up to `kv_allocated_len` -/
  table : List Nat := []
  kvCommittedLen : Nat := 0
  mambaPoolIdx : Option Nat := none
  mambaPingPongTrackBuffer : Option (List Nat) := none
  /-- the row of `req_index_to_mamba_ping_pong_track_buffer_mapping` -/
  trackBufferMapping : List Nat := []
  mambaNextTrackIdx : Nat := 0
  mambaLastTrackSeqlen : Option Nat := none
deriving DecidableEq, Repr

namespace Req

/-- `origin_input_ids + output_ids`. -/
def allIds (req : Req) : List Nat :=
  req.originInputIds ++ req.outputIds

def cacheCommitLen (cfg : ServerConfig) (req : Req) : Nat :=
  if cfg.stripThinkingCache && decide (0 < req.reasoningTokens) then
    min req.kvCommittedLen req.originInputIds.length
  else req.kvCommittedLen

def resetForRetract (req : Req) : Req :=
  { req with
    phase := .waiting
    prefixIndices := []
    lastNode := rootNode
    cacheProtectedLen := 0
    table := []
    kvCommittedLen := 0
    mambaPoolIdx := none
    mambaPingPongTrackBuffer := none
    trackBufferMapping := []
    mambaNextTrackIdx := 0
    mambaLastTrackSeqlen := none }

end Req

/-! ### Allocation -/

section Allocation

/-- `math.ceil(len / page_size)`. -/
def ceilDiv (len pageSize : Nat) : Nat :=
  (len + pageSize - 1) / pageSize

/-- `PagedTokenToKVPoolAllocator.alloc_extend` for one request: what is left of its last page,
    and then new pages. `alloc_decode` is the case of one token. -/
def allocExtend (pageSize : Nat) (before : List Nat) (extendLen : Nat) (freePages : List Nat) :
    Option (List Nat × List Nat) :=
  let preLen := before.length
  let seqLen := preLen + extendLen
  let numNewPages := ceilDiv seqLen pageSize - ceilDiv preLen pageSize
  if freePages.length < numNewPages then none
  else
    let numPart1 := min seqLen (ceilDiv preLen pageSize * pageSize) - preLen
    let part1 := (List.range numPart1).map (before.getLast?.getD 0 + 1 + ·)
    let part2 := (blocks pageSize (freePages.take numNewPages)).take (extendLen - numPart1)
    some (part1 ++ part2, freePages.drop numNewPages)

def Cache.allocKv (cfg : CacheConfig) (c : Cache) (before : List Nat) (extendLen : Nat) :
    Except Failure (List Nat × Cache) :=
  if cfg.pageSize = 1 then
    if c.freePages.length < extendLen then .error .outOfMemory
    else .ok (c.freePages.take extendLen, { c with freePages := c.freePages.drop extendLen })
  else
    match allocExtend cfg.pageSize before extendLen c.freePages with
    | none => .error .outOfMemory
    | some (indices, freePages) => .ok (indices, { c with freePages })

def Cache.allocMambaSlot (cfg : CacheConfig) (c : Cache) : Except Failure (Nat × Cache) :=
  match c.allocMamba with
  | some (slot, c) => .ok (slot, c)
  | none => do
    let (_, c) ← c.evictMamba cfg 1
    match c.allocMamba with
    | none => .error .canNotAllocMamba
    | some (slot, c) => .ok (slot, c)

def Cache.freeMambas (c : Cache) (slots : List Nat) : Cache :=
  { c with freeSlots := c.freeSlots ++ slots }

end Allocation

section Functions

variable (cfg : ServerConfig)

def getMambaPingPongOtherIdx (mambaNextTrackIdx : Nat) : Nat :=
  if cfg.mambaPingPongTrackBufferSize = 2 then 1 - mambaNextTrackIdx else mambaNextTrackIdx

/-- `HybridReqToTokenPool.alloc` for one request: first its own slot, "for radix cache /
    continuing chunked" the one it has, -/
def allocMambaIdx (req : Req) (c : Cache) : Except Failure (Req × Cache) :=
  match req.mambaPoolIdx with
  | some _ => .ok (req, c)
  | none =>
    match c.allocMamba with
    | none => .error .notEnoughMamba
    | some (slot, c) => .ok ({ req with mambaPoolIdx := some slot }, c)

def allocTrackBuffer (req : Req) (c : Cache) : Except Failure (Req × Cache) :=
  if cfg.enableMambaExtraBuffer then
    match req.mambaPingPongTrackBuffer with
    | some buffer => .ok ({ req with trackBufferMapping := buffer }, c)
    | none =>
      let size := cfg.mambaPingPongTrackBufferSize
      if c.freeSlots.length < size then .error .notEnoughMamba
      else
        let buffer := c.freeSlots.take size
        .ok ({ req with
            mambaPingPongTrackBuffer := some buffer
            trackBufferMapping := buffer
            mambaNextTrackIdx := 0 },
          { c with freeSlots := c.freeSlots.drop size })
  else .ok (req, c)

def allocReqSlots (req : Req) (c : Cache) : Except Failure (Req × Cache) := do
  let (req, c) ← allocMambaIdx req c
  allocTrackBuffer cfg req c

def trackBufferToFree (mapping : List Nat) : Option Nat → Except Failure (List Nat)
  | none => .ok mapping
  | some index => do
    check (index == 0 || index == 1) (.bufferToKeep index)
    if cfg.mambaPingPongTrackBufferSize = 2 then .ok ((mapping.drop (1 - index)).take 1)
    else do
      check (index == 0) (.bufferToKeep index)
      .ok []

def freeMambaCache (req : Req) (mambaPingPongTrackBufferToKeep : Option Nat) (c : Cache) :
    Except Failure (Req × Cache) :=
  match req.mambaPoolIdx with
  | none => .error .mambaIndexIsNone
  | some mambaIndex => do
    let c := c.freeMamba mambaIndex
    let req := { req with mambaPoolIdx := none }
    if cfg.enableMambaExtraBuffer then
      let slots ← trackBufferToFree cfg req.trackBufferMapping mambaPingPongTrackBufferToKeep
      .ok (req, c.freeMambas slots)
    else .ok (req, c)

/-! ### The cache and a request -/

/-- The slot that a request gives to the tree when it finishes: the tracked one of the
    ping-pong buffer, with its position, or its own. -/
def donatedSlot (req : Req) : Except Failure (Nat × Option Nat) :=
  if cfg.enableMambaExtraBuffer then
    let keep := getMambaPingPongOtherIdx cfg req.mambaNextTrackIdx
    match req.mambaPingPongTrackBuffer.bind (·[keep]?) with
    | none => .error .noTrackBuffer
    | some slot => .ok (slot, some keep)
  else
    match req.mambaPoolIdx with
    | none => .error .mambaIndexIsNone
    | some slot => .ok (slot, none)

/-- The insertion in `cache_finished_req`: the position of the buffer to keep, and whether the
    tree had a state. -/
def insertFinished (req : Req) (tokenIds kvIndices : List Nat) (c : Cache) :
    Except Failure (Option Nat × Bool × Cache) := do
  let cacheLen :=
    if cfg.enableMambaExtraBuffer then req.mambaLastTrackSeqlen.getD 0 else tokenIds.length
  let (tokenIds, kvIndices, c) :=
    if cacheLen ≠ tokenIds.length then
      (tokenIds.take cacheLen, kvIndices.take cacheLen,
        c.freeKv cfg.toCacheConfig (kvIndices.drop (max cacheLen req.cacheProtectedLen)))
    else (tokenIds, kvIndices, c)
  let pageAlignedLen := kvIndices.length / cfg.pageSize * cfg.pageSize
  check (cacheLen == pageAlignedLen) (.cacheLenUnaligned cacheLen pageAlignedLen)
  let (mambaValue, keep) ← donatedSlot cfg req
  let (result, c) ← c.insert cfg.toCacheConfig ⟨tokenIds.take pageAlignedLen, req.extraKey⟩
    (kvIndices.take pageAlignedLen) mambaValue req.cacheProtectedLen
  .ok (keep, result.mambaExist, c)

def cacheFinishedReq (req : Req) (isInsert : Bool) (c : Cache) : Except Failure (Req × Cache) :=
  let kvCommittedLen := req.cacheCommitLen cfg
  let kvIndices := req.table.take kvCommittedLen
  if cfg.disable then
    freeMambaCache cfg req none (c.freeKv cfg.toCacheConfig kvIndices)
  else do
    let tokenIds := req.allIds.take kvCommittedLen
    let (keep, mambaExist, c) ←
      if isInsert then insertFinished cfg req tokenIds kvIndices c
      else .ok (none, true, c.freeKv cfg.toCacheConfig (kvIndices.drop req.cacheProtectedLen))
    let keep := if mambaExist then none else keep
    let (req, c) ←
      if cfg.enableMambaExtraBuffer || mambaExist then freeMambaCache cfg req keep c
      else .ok (req, c)
    let c ← c.decLockRef cfg.toCacheConfig req.lastNode
    .ok (req, c)

/-- The slot that is given to the tree before a request has finished, and the request with
    another one in its place. Without the extra buffer it is a copy. -/
def donateUnfinished (req : Req) (c : Cache) : Except Failure (Nat × Req × Cache) :=
  if cfg.enableMambaExtraBuffer then do
    let keep := getMambaPingPongOtherIdx cfg req.mambaNextTrackIdx
    match req.mambaPingPongTrackBuffer with
    | none => .error .noTrackBuffer
    | some buffer =>
      match buffer[keep]? with
      | none => .error .noTrackBuffer
      | some donated => do
        let (newSlot, c) ← c.allocMambaSlot cfg.toCacheConfig
        let buffer := buffer.set keep newSlot
        .ok (donated,
          { req with mambaPingPongTrackBuffer := some buffer, trackBufferMapping := buffer }, c)
  else do
    let (donated, c) ← c.allocMambaSlot cfg.toCacheConfig
    .ok (donated, req, c)

def writeRow (row : List Nat) (start : Nat) (indices : List Nat) : List Nat :=
  row.take start ++ indices ++ row.drop (start + indices.length)

def insertUnfinished (req : Req) (cacheLen : Nat) (c : Cache) : Except Failure (Req × Cache) := do
  let kvIndicesOrig := req.table.take req.fillIds.length
  let kvIndices := kvIndicesOrig.take cacheLen
  let pageAlignedLen := kvIndices.length / cfg.pageSize * cfg.pageSize
  check (pageAlignedLen == kvIndices.length) (.cacheLenUnaligned kvIndices.length pageAlignedLen)
  let key : RadixKey := ⟨req.fillIds.take pageAlignedLen, req.extraKey⟩
  let (mambaValueDonated, req, c) ← donateUnfinished cfg req c
  let (result, c) ← c.insert cfg.toCacheConfig key (kvIndices.take pageAlignedLen)
    mambaValueDonated req.cacheProtectedLen
  let c := if result.mambaExist then c.freeMamba mambaValueDonated else c
  let (matchResult, c) ← c.matchPrefix cfg.toCacheConfig key none
  let newIndices := matchResult.deviceIndices
  let newLastNode := matchResult.lastDeviceNode
  check (result.mambaExist || (c.tree.nodes newLastNode).mambaValue == some mambaValueDonated)
    .donatedStateLost
  check (decide (req.cacheProtectedLen ≤ newIndices.length + cfg.pageSize - 1))
    .protectedBeyondMatch
  check (decide (result.prefixLen ≤ newIndices.length)) .prefixBeyondMatch
  let table := writeRow req.table req.cacheProtectedLen (newIndices.drop req.cacheProtectedLen)
  let c ← c.decLockRef cfg.toCacheConfig req.lastNode
  let c ← c.incLockRef cfg.toCacheConfig newLastNode
  .ok ({ req with
    table
    prefixIndices := newIndices ++ (table.take req.fillIds.length).drop newIndices.length
    cacheProtectedLen := newIndices.length
    mambaLastTrackSeqlen := none
    lastNode := newLastNode }, c)

def cacheUnfinishedReq (req : Req) (c : Cache) : Except Failure (Req × Cache) :=
  let cacheLen :=
    if cfg.enableMambaExtraBuffer then req.mambaLastTrackSeqlen else some req.fillIds.length
  match cfg.disable, cacheLen with
  | false, some cacheLen => insertUnfinished cfg req cacheLen c
  | _, _ => .ok ({ req with prefixIndices := req.table.take req.fillIds.length }, c)

def releaseKvCache (req : Req) (isInsert : Bool) (c : Cache) : Except Failure (Req × Cache) :=
  if req.phase ≠ .running then
    match req.mambaPoolIdx with
    | some slot => .ok ({ req with mambaPoolIdx := none }, c.freeMamba slot)
    | none => .ok (req, c)
  else do
    let (req, c) ← cacheFinishedReq cfg req isInsert c
    let startP := req.cacheCommitLen cfg
    let endP := req.table.length
    check (cfg.stripThinkingCache || startP == endP) .overallocated
    let startP := if 1 < cfg.pageSize then ceilDiv startP cfg.pageSize * cfg.pageSize else startP
    let c := if startP < endP then c.freeKv cfg.toCacheConfig (req.table.drop startP) else c
    -- `req_to_token_pool.free` takes the row away
    .ok ({ req with phase := .waiting, table := [] }, c)

/-! ### The scheduler and a request -/

def initNextRoundInput (req : Req) (maxPrefixLen : Nat) (c : Cache) :
    Except Failure (Req × Cache) := do
  let (result, c) ← c.matchPrefix cfg.toCacheConfig ⟨req.allIds.take maxPrefixLen, req.extraKey⟩
    (some req.mambaPoolIdx)
  .ok ({ req with
    fillIds := req.allIds
    prefixIndices := result.deviceIndices
    lastNode := result.lastDeviceNode
    cacheProtectedLen := result.deviceIndices.length
    mambaPoolIdx := result.mambaPoolIdx }, c)

/-- A request from the waiting queue is added to the batch. -/
def addOneReq (req : Req) (maxPrefixLen : Nat) (c : Cache) : Except Failure (Req × Cache) := do
  let (req, c) ← initNextRoundInput cfg req maxPrefixLen c
  let c ← c.incLockRef cfg.toCacheConfig req.lastNode
  .ok ({ req with phase := .admitted }, c)

def revertMatch (req : Req) (maxPrefixLen : Nat) (c : Cache) : Except Failure (Req × Cache) := do
  let (req, c) ← initNextRoundInput cfg req maxPrefixLen c
  match req.mambaPoolIdx with
  | some slot => .ok ({ req with mambaPoolIdx := none }, c.freeMamba slot)
  | none => .ok (req, c)

/-- The next chunk can be prefilled: after the match, or when the chunk before is cached. -/
def Req.Extendable (req : Req) : Prop :=
  req.phase = .admitted ∨ (req.phase = .running ∧ req.prefixIndices.length = req.table.length)
deriving Decidable

def prepareForExtend (req : Req) (extendInputLen : Nat) (c : Cache) :
    Except Failure (Req × Cache) := do
  let seqLen := req.prefixIndices.length + extendInputLen
  check (decide (req.Extendable ∧ seqLen ≤ req.allIds.length)) .notScheduled
  let (req, c) ← allocReqSlots cfg req c
  let (outCacheLoc, c) ← c.allocKv cfg.toCacheConfig req.prefixIndices extendInputLen
  .ok ({ req with
    phase := .running
    fillIds := req.allIds.take seqLen
    table := req.prefixIndices ++ outCacheLoc
    kvCommittedLen := seqLen }, c)

/-- `prepare_for_decode` for a request whose last token has been sampled. -/
def prepareForDecode (req : Req) (c : Cache) : Except Failure (Req × Cache) := do
  check (decide (req.phase = .running ∧ req.kvCommittedLen < req.allIds.length)) .notScheduled
  let (outCacheLoc, c) ← c.allocKv cfg.toCacheConfig req.table 1
  .ok ({ req with
    table := req.table ++ outCacheLoc
    kvCommittedLen := req.kvCommittedLen + 1 }, c)

def trackState (req : Req) (seqlen : Nat) : Except Failure Req := do
  check (decide (req.phase = .running)) .notScheduled
  .ok (if req.mambaPingPongTrackBuffer.isSome then
      { req with
        mambaNextTrackIdx := getMambaPingPongOtherIdx cfg req.mambaNextTrackIdx
        mambaLastTrackSeqlen := some seqlen }
    else req)

def appendOutput (req : Req) (token : Nat) (reasoning : Bool) : Except Failure Req := do
  check (decide (req.phase = .running)) .notScheduled
  .ok { req with
    outputIds := req.outputIds ++ [token]
    reasoningTokens := if reasoning then req.reasoningTokens + 1 else req.reasoningTokens }

end Functions

/-! ### All requests -/

/-- The cache and the requests, those that the scheduler has and those that have finished. -/
structure Engine where
  cache : Cache
  reqs : Nat → Req := fun _ => {}
  live : List Nat := []
  finished : List Nat := []

inductive Event where
  | arrive (id : Nat) (originInputIds : List Nat) (extraKey : Option String)
  | admitted (id maxPrefixLen : Nat)
  | turnedAway (id maxPrefixLen : Nat)
  | extend (id extendInputLen : Nat)
  | decode (id : Nat)
  | track (id seqlen : Nat)
  | output (id token : Nat) (reasoning : Bool)
  | cacheUnfinished (id : Nat)
  | finish (id : Nat) (isInsert : Bool)
  | retract (id : Nat)
  /-- a match for no request, as the policies make it -/
  | matchPrefix (key : RadixKey)
  | evict (numTokens mambaNum : Int)
deriving DecidableEq

namespace Engine

variable (cfg : ServerConfig)

def reset (numPages size : Nat) : Engine where
  cache := .reset numPages size

def handle (s : Engine) (id : Nat) (f : Req → Cache → Except Failure (Req × Cache)) :
    Except Failure Engine := do
  check (decide (id ∈ s.live)) .notScheduled
  let (req, cache) ← f (s.reqs id) s.cache
  .ok { s with cache, reqs := Function.update s.reqs id req }

def fromQueue (f : Req → Cache → Except Failure (Req × Cache)) (req : Req) (c : Cache) :
    Except Failure (Req × Cache) := do
  check (decide (req.phase = .waiting)) .notScheduled
  f req c

/-- The end of a request: it is running, or waiting. -/
def release (isInsert : Bool) (req : Req) (c : Cache) : Except Failure (Req × Cache) := do
  check (decide (req.phase ≠ .admitted)) .notScheduled
  releaseKvCache cfg req isInsert c

/-- `release_req`: the request goes back to the waiting queue. -/
def retractReq (req : Req) (c : Cache) : Except Failure (Req × Cache) := do
  check (decide (req.phase = .running)) .notScheduled
  let (req, c) ← releaseKvCache cfg req false c
  .ok (req.resetForRetract, c)

def evict (c : Cache) (numTokens mambaNum : Int) : Except Failure Cache := do
  let (_, c) ← if 0 < numTokens then c.evictFull cfg.toCacheConfig numTokens else .ok (0, c)
  let (_, c) ← if 0 < mambaNum then c.evictMamba cfg.toCacheConfig mambaNum else .ok (0, c)
  .ok c

def step (s : Engine) : Event → Except Failure Engine
  | .arrive id originInputIds extraKey => do
    check (decide (id ∉ s.live ∧ id ∉ s.finished)) .notScheduled
    .ok { s with
      reqs := Function.update s.reqs id { originInputIds, extraKey }
      live := id :: s.live }
  | .admitted id maxPrefixLen => s.handle id (fromQueue (addOneReq cfg · maxPrefixLen ·))
  | .turnedAway id maxPrefixLen => s.handle id (fromQueue (revertMatch cfg · maxPrefixLen ·))
  | .extend id extendInputLen => s.handle id (prepareForExtend cfg · extendInputLen ·)
  | .decode id => s.handle id (prepareForDecode cfg)
  | .track id seqlen => s.handle id fun req c => do
    let req ← trackState cfg req seqlen
    .ok (req, c)
  | .output id token reasoning => s.handle id fun req c => do
    let req ← appendOutput req token reasoning
    .ok (req, c)
  | .cacheUnfinished id => s.handle id fun req c => do
    check (decide (req.phase = .running)) .notScheduled
    cacheUnfinishedReq cfg req c
  | .finish id isInsert => do
    let s ← s.handle id (release cfg isInsert)
    .ok { s with live := s.live.erase id, finished := id :: s.finished }
  | .retract id => s.handle id (retractReq cfg)
  | .matchPrefix key => do
    let (_, cache) ← s.cache.matchPrefix cfg.toCacheConfig key none
    .ok { s with cache }
  | .evict numTokens mambaNum => do
    let cache ← evict cfg s.cache numTokens mambaNum
    .ok { s with cache }

end Engine

end Engram.Radix
