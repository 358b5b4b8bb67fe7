import Engram.Lib.Transition
import Engram.Radix.Requests

/-!
# Prefill chunks and the states tracked in them

With the extra buffer a request leaves Mamba states for the tree only at some of its positions:
`prepare_for_extend` picks one in every chunk that is long enough, and a decode step takes one
at every `mamba_track_interval`. The chunks are chosen by `PrefillAdder`, the first one of a
request by `add_one_req` and the later ones by `add_chunked_req`.
-/

namespace Engram.Radix

def flaChunkSize : Nat := 64

structure TrackingConfig extends ServerConfig where
  mambaTrackInterval : Nat := 256

/-- What the server arguments have to be with the extra buffer. The size of a prefill chunk is a
    multiple of the page size, too; the budgets below may be anything. -/
structure TrackingConfig.Accepted (cfg : TrackingConfig) : Prop where
  extraBuffer : cfg.enableMambaExtraBuffer = true
  enabled : cfg.disable = false
  pages : max flaChunkSize cfg.pageSize % min flaChunkSize cfg.pageSize = 0
  chunkSize : cfg.mambaCacheChunkSize = max flaChunkSize cfg.pageSize
  interval : cfg.mambaTrackInterval % cfg.pageSize = 0

inductive Fault where
  /-- the assertion of `_force_track_h` -/
  | forceTrackH (i : Nat)
  | cache (failure : Failure)
  /-- `add_one_req` returns `AddReqResult.OTHER` -/
  | notAdded
deriving DecidableEq, Repr

/-! ### `PrefillAdder` -/

def ceilPagedTokens (pageSize tokens : Nat) : Nat :=
  ceilDiv tokens pageSize * pageSize

def alignTruncLen (truncLen : Nat) : Option Nat → Option Nat
  | none => some truncLen
  | some truncationAlignSize =>
    if truncLen < truncationAlignSize then none
    else some (truncationAlignSize * (truncLen / truncationAlignSize))

/-- The part of `add_one_req` that truncates. -/
def truncate (pageSize prefixLen remChunkTokens : Nat) (truncationAlignSize : Option Nat) :
    Option Nat := do
  let truncLen := remChunkTokens / pageSize * pageSize
  if truncLen = 0 then none
  else
    let truncLen ← alignTruncLen truncLen truncationAlignSize
    let nowInputLen := (truncLen + prefixLen) / pageSize * pageSize
    if nowInputLen ≤ prefixLen then none else some (nowInputLen - prefixLen)

/-- `extend_input_len` after `add_one_req`, and whether the request is the new chunked one.
    Without `rem_chunk_tokens` there is no chunked prefill. -/
def addOneReqLen (pageSize prefixLen extendInputLen : Nat)
    (remChunkTokens truncationAlignSize : Option Nat) : Option (Nat × Bool) :=
  match remChunkTokens with
  | none => some (extendInputLen, false)
  | some remChunkTokens =>
    if ceilPagedTokens pageSize extendInputLen ≤ remChunkTokens then some (extendInputLen, false)
    else do
      let truncLen ← truncate pageSize prefixLen remChunkTokens truncationAlignSize
      some (truncLen, true)

def remTokens (remChunkTokens : Nat) (remTotalTokens : Int) : Nat :=
  if min (remChunkTokens : Int) remTotalTokens ≤ 0 then remChunkTokens
  else (min (remChunkTokens : Int) remTotalTokens).toNat

def addChunkedReqLen (extendInputLen remTokens : Nat) : Nat × Bool :=
  (min extendInputLen remTokens, decide (remTokens < extendInputLen))

/-! ### Tracked positions -/

def forceTrackH (i : Nat) : Except Fault Nat :=
  if i % flaChunkSize = 0 then .ok (i + 1) else .error (.forceTrackH i)

structure TrackEntry where
  trackMask : Bool
  trackIndex : Nat
  trackSeqlen : Int
  mambaLastTrackSeqlen : Option Nat
deriving DecidableEq, Repr

/-- `mamba_track_seqlen` and `mamba_track_seqlen_aligned` of a chunk that is tracked, before the
    branching point is looked at. -/
def trackEnd (cfg : TrackingConfig) (prefixLen extendInputLen : Nat) : Except Fault (Nat × Nat) :=
  let chunkSize := cfg.mambaCacheChunkSize
  let aligned := prefixLen + extendInputLen / chunkSize * chunkSize
  let flaAligned := prefixLen + extendInputLen / flaChunkSize * flaChunkSize
  if flaAligned ≠ aligned then do
    let forced ← forceTrackH aligned
    .ok (forced, aligned)
  else .ok (prefixLen + extendInputLen, aligned)

/-- "track branching point in this forward if the branching point is within the current extend
    batch" -/
def trackBranching (cfg : TrackingConfig) (prefixLen : Nat) (tracked : Nat × Nat) :
    Option Nat → Except Fault (Nat × Nat)
  | none => .ok tracked
  | some branching =>
    if ((branching : Int) - prefixLen) % cfg.mambaCacheChunkSize = 0 ∧ prefixLen < branching ∧
        branching < tracked.1 then do
      let forced ← forceTrackH branching
      .ok (forced, branching)
    else .ok tracked

/-- `_mamba_radix_cache_v2_req_prepare_for_extend`. -/
def trackExtend (cfg : TrackingConfig) (req : Req) (extendInputLen : Nat)
    (mambaBranchingSeqlen : Option Nat) : Except Fault TrackEntry :=
  match req.mambaPingPongTrackBuffer.bind (·[req.mambaNextTrackIdx]?) with
  | none => .error (.cache .noTrackBuffer)
  | some trackIndex =>
    if cfg.mambaCacheChunkSize ≤ extendInputLen then do
      let prefixLen := req.prefixIndices.length
      let tracked ← trackEnd cfg prefixLen extendInputLen
      let (trackSeqlen, aligned) ← trackBranching cfg prefixLen tracked mambaBranchingSeqlen
      .ok ⟨true, trackIndex, trackSeqlen, some aligned⟩
    else .ok ⟨false, trackIndex, -1, none⟩

/-! ### The scheduler -/

/-- Where a request in a batch stands: it is the chunked one; its last chunk has been put in a
    batch; it decodes. -/
inductive Stage where
  | chunked
  | prefilled
  | decoding
deriving DecidableEq, Repr

structure Chunk where
  id : Nat
  prefixLen : Nat
  extendInputLen : Nat
  mambaLastTrackSeqlen : Option Nat
deriving DecidableEq, Repr

/-- The cache and its requests, and what the scheduler knows about them; `chunks` are all the
    chunks so far. -/
structure Serving where
  engine : Engine
  stage : Nat → Stage := fun _ => .prefilled
  mambaBranchingSeqlen : Nat → Option Nat := fun _ => none
  chunks : List Chunk := []

inductive Task where
  | arrive (id : Nat) (originInputIds : List Nat) (extraKey : Option String)
  | turnedAway (id maxPrefixLen : Nat)
  | firstChunk (id maxPrefixLen : Nat) (remChunkTokens truncationAlignSize : Option Nat)
  | nextChunk (id remChunkTokens : Nat) (remTotalTokens : Int)
  | prefillDone (id token : Nat) (reasoning : Bool)
  | decode (id token : Nat) (reasoning : Bool)
  | finish (id : Nat) (isInsert : Bool)
  | retract (id : Nat)
  | matchPrefix (key : RadixKey)
  | evict (numTokens mambaNum : Int)
deriving DecidableEq

namespace Serving

variable (cfg : TrackingConfig)

def reset (numPages size : Nat) : Serving where
  engine := .reset numPages size

def apply (s : Serving) (event : Event) : Except Fault Serving :=
  match s.engine.step cfg.toServerConfig event with
  | .ok engine => .ok { s with engine }
  | .error failure => .error (.cache failure)

def expect (condition : Bool) : Except Fault Unit :=
  if condition then .ok () else .error (.cache .notScheduled)

def setStage (s : Serving) (id : Nat) (stage : Stage) : Serving :=
  { s with stage := Function.update s.stage id stage }

def matchBranching (s : Serving) (id maxPrefixLen : Nat) : Option Nat :=
  let req := s.engine.reqs id
  match s.engine.cache.matchPrefix cfg.toCacheConfig ⟨req.allIds.take maxPrefixLen, req.extraKey⟩
      (some req.mambaPoolIdx) with
  | .ok (result, _) => result.mambaBranchingSeqlen
  | .error _ => none

/-- The position is recorded and the other entry of the ping-pong buffer is the next. -/
def record (s : Serving) (id : Nat) : Option Nat → Except Fault Serving
  | none => .ok s
  | some seqlen => s.apply cfg (.track id seqlen)

def extend (s : Serving) (id extendInputLen : Nat) (stage : Stage) : Except Fault Serving := do
  let s ← s.apply cfg (.extend id extendInputLen)
  let req := s.engine.reqs id
  let entry ← trackExtend cfg req extendInputLen (s.mambaBranchingSeqlen id)
  let s ← s.record cfg id entry.mambaLastTrackSeqlen
  .ok { s.setStage id stage with
    chunks := ⟨id, req.prefixIndices.length, extendInputLen, entry.mambaLastTrackSeqlen⟩ ::
      s.chunks }

def restLen (s : Serving) (id : Nat) : Nat :=
  (s.engine.reqs id).allIds.length - (s.engine.reqs id).prefixIndices.length

def step (s : Serving) : Task → Except Fault Serving
  | .arrive id originInputIds extraKey => s.apply cfg (.arrive id originInputIds extraKey)
  | .turnedAway id maxPrefixLen => s.apply cfg (.turnedAway id maxPrefixLen)
  | .firstChunk id maxPrefixLen remChunkTokens truncationAlignSize => do
    let branching := s.matchBranching cfg id maxPrefixLen
    let s ← s.apply cfg (.admitted id maxPrefixLen)
    let s := { s with
      mambaBranchingSeqlen := Function.update s.mambaBranchingSeqlen id branching }
    match addOneReqLen cfg.pageSize (s.engine.reqs id).prefixIndices.length (s.restLen id)
        remChunkTokens truncationAlignSize with
    | none => .error .notAdded
    | some (extendInputLen, isChunked) =>
      s.extend cfg id extendInputLen (if isChunked then .chunked else .prefilled)
  -- the chunk before is cached first, in `stash_chunked_request`
  | .nextChunk id remChunkTokens remTotalTokens => do
    expect (decide (s.stage id = .chunked))
    let s ← s.apply cfg (.cacheUnfinished id)
    let (extendInputLen, isChunked) :=
      addChunkedReqLen (s.restLen id) (remTokens remChunkTokens remTotalTokens)
    s.extend cfg id extendInputLen (if isChunked then .chunked else .prefilled)
  | .prefillDone id token reasoning => do
    expect (decide (s.stage id = .prefilled))
    let s ← s.apply cfg (.output id token reasoning)
    let s ← s.apply cfg (.cacheUnfinished id)
    .ok (s.setStage id .decoding)
  | .decode id token reasoning => do
    expect (decide (s.stage id = .decoding))
    let s ← s.apply cfg (.decode id)
    let s ← s.apply cfg (.output id token reasoning)
    -- `_mamba_prefix_cache_update`
    let seqLen := (s.engine.reqs id).allIds.length - 1
    if seqLen % cfg.mambaTrackInterval = 0 then s.apply cfg (.track id seqLen) else .ok s
  | .finish id isInsert => s.apply cfg (.finish id isInsert)
  | .retract id => s.apply cfg (.retract id)
  | .matchPrefix key => s.apply cfg (.matchPrefix key)
  | .evict numTokens mambaNum => s.apply cfg (.evict numTokens mambaNum)

end Serving

end Engram.Radix
