import Mathlib.Data.List.Basic

/-!
# The choice of the prefix cache

`default_radix_cache_factory` of `mem_cache/registry.py`, which picks the prefix
cache of a server, and `supports_mamba` of the classes it can pick.
-/

namespace Engram.Memory

/-- What the factory reads from its context, the server arguments and the
    environment. -/
structure TreeCacheBuildContext where
  isHybridSwa : Bool := false
  isHybridSsm : Bool
  enableHierarchicalCache : Bool := false
  disableRadixCache : Bool := false
  effectiveChunkedPrefillSize : Option Nat
  experimentalCppRadixTree : Bool := false
  enableUnifiedRadixTree : Bool := false
  enableLmcache : Bool := false
  enableMambaExtraBuffer : Bool := false
  enableOverlapSchedule : Bool := true
deriving DecidableEq, Repr

inductive ComponentType where
  | full
  | swa
  | mamba
deriving DecidableEq, Repr

inductive PrefixCache where
  | chunkCache
  | swaChunkCache
  | radixCacheCpp
  | unifiedRadixCache (treeComponents : List ComponentType)
  | hiMambaRadixCache
  | hiRadixCache
  | swaRadixCache
  | mambaRadixCache
  | lmcRadixCache
  | radixCache
deriving DecidableEq, Repr

def defaultRadixCacheFactory (ctx : TreeCacheBuildContext) : PrefixCache :=
  if ctx.effectiveChunkedPrefillSize.isSome && ctx.disableRadixCache then
    if ctx.isHybridSwa then .swaChunkCache else .chunkCache
  else if ctx.experimentalCppRadixTree then .radixCacheCpp
  else if ctx.enableUnifiedRadixTree then
    .unifiedRadixCache
      (if ctx.isHybridSwa then [.full, .swa]
        else if ctx.isHybridSsm then [.full, .mamba]
        else [.full])
  else if ctx.enableHierarchicalCache then
    if ctx.isHybridSsm then .hiMambaRadixCache else .hiRadixCache
  else if ctx.isHybridSwa then .swaRadixCache
  else if ctx.isHybridSsm then .mambaRadixCache
  else if ctx.enableLmcache then .lmcRadixCache
  else .radixCache

namespace PrefixCache

def supportsMamba : PrefixCache → Bool
  | .unifiedRadixCache treeComponents => treeComponents.contains .mamba
  | .hiMambaRadixCache => true
  | .mambaRadixCache => true
  | _ => false

end PrefixCache

/-- The cache of a running server. `disable` is the cache parameter set by
    `--disable-radix-cache`: such a tree keeps nothing. The overlap schedule counts as far as
    it sets the size of the ping-pong buffer. -/
structure TreeCache where
  kind : PrefixCache
  disable : Bool := false
  enableMambaExtraBuffer : Bool := false
  enableOverlapSchedule : Bool := true
deriving DecidableEq, Repr

namespace TreeCache

def supportsMamba (cache : TreeCache) : Bool :=
  cache.kind.supportsMamba

def keepsMamba (cache : TreeCache) : Bool :=
  cache.kind.supportsMamba && !cache.disable

def keepsPrefixes (cache : TreeCache) : Bool :=
  cache.kind != .chunkCache && cache.kind != .swaChunkCache && !cache.disable

def trackBufferSize (cache : TreeCache) : Nat :=
  if cache.enableMambaExtraBuffer then if cache.enableOverlapSchedule then 2 else 1 else 0

def build (ctx : TreeCacheBuildContext) : TreeCache where
  kind := defaultRadixCacheFactory ctx
  disable := ctx.disableRadixCache
  enableMambaExtraBuffer := ctx.enableMambaExtraBuffer
  enableOverlapSchedule := ctx.enableOverlapSchedule

/-- For a Mamba model the cache supports Mamba states unless one of four earlier
    choices of the factory wins: the chunk caches, the C++ tree, a unified tree
    with a sliding window, or the sliding-window tree. -/
theorem build_supportsMamba_iff (ctx : TreeCacheBuildContext) (mamba : ctx.isHybridSsm = true) :
    (build ctx).supportsMamba = true ↔
      ¬ (ctx.effectiveChunkedPrefillSize.isSome = true ∧ ctx.disableRadixCache = true) ∧
        ctx.experimentalCppRadixTree = false ∧
        (ctx.isHybridSwa = true →
          ctx.enableUnifiedRadixTree = false ∧ ctx.enableHierarchicalCache = true) := by
  unfold build supportsMamba defaultRadixCacheFactory
  cases ctx.effectiveChunkedPrefillSize.isSome <;> cases ctx.disableRadixCache <;>
    cases ctx.experimentalCppRadixTree <;> cases ctx.enableUnifiedRadixTree <;>
    cases ctx.isHybridSwa <;> cases ctx.enableHierarchicalCache <;>
    simp [mamba, PrefixCache.supportsMamba]

end TreeCache

end Engram.Memory
