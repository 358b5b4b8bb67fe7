import Engram.Lib.OrderedDict
import Engram.Lib.Recency
import Engram.Radix.Key
import Mathlib.Algebra.GroupWithZero.Nat
import Mathlib.Data.List.Sort

/-!
# The Mamba prefix tree

`MambaRadixCache` of `mamba_radix_cache.py` with its `TreeNode` and `LRUList`. Nodes are objects
with an identity: a heap maps identities to nodes, and an evicted node stays in it with its last
contents. An LRU list is the list of its nodes from the most recently used one on. Each assertion
of the source is a failure of its own. Access times, host copies, hashes and events are left out.
-/

namespace Engram.Radix

open Lib

abbrev NodeId := Nat

structure TreeNode where
  children : OrderedDict ChildKey NodeId := .empty
  parent : NodeId := 0
  key : RadixKey := {}
  value : List Nat := []
  /-- the one slot of the tensor `mamba_value` -/
  mambaValue : Option Nat := none
  fullLockRef : Nat := 0
  mambaLockRef : Nat := 0

structure CacheConfig where
  pageSize : Nat
  enableMambaExtraBuffer : Bool
  disable : Bool := false
  mambaCacheChunkSize : Nat := 64
  positive : 0 < pageSize
  /-- "Page size must be 1 for MambaRadixCache v1" -/
  single : enableMambaExtraBuffer = false → pageSize = 1

inductive Failure where
  /-- "Resetting node … not in lru list" -/
  | resettingUnlisted (node : NodeId)
  /-- "Resetting mamba tombstone node in mamba lru list" -/
  | resettingTombstone (node : NodeId)
  /-- "Resetting node … not in lru list when resetting node and parents mru" -/
  | resettingParents (node : NodeId)
  /-- "Inserting mamba tombstone node in mamba lru list" -/
  | insertingTombstone (node : NodeId)
  /-- "Inserting node … already in lru list" -/
  | insertingListed (node : NodeId)
  /-- "Removing node … not in lru list" -/
  | removingUnlisted (node : NodeId)
  /-- "Removing mamba tombstone node from mamba lru list" -/
  | removingTombstone (node : NodeId)
  /-- "Getting prev of node … not in lru list" -/
  | prevOfUnlisted (node : NodeId)
  /-- "RadixKey operations require matching extra_key" -/
  | extraKeyMismatch
  /-- "evict leaf node invalid with …" -/
  | evictingLocked (node : NodeId)
  /-- "leaf node mamba value is not None" -/
  | evictingTombstone (node : NodeId)
  /-- "node has no mamba value" -/
  | noMambaValue (node : NodeId)
  /-- "root node is not evictable", "root node should not exist in full lru list" -/
  | evictingRoot
  /-- "node is in use by mamba kv indices" -/
  | mambaInUse (node : NodeId)
  /-- "tombstone mamba_lock_ref should always be 0" -/
  | tombstoneLocked (node : NodeId)
  /-- "Invariant violated: leaf node is a tombstone" -/
  | leafIsTombstone (node : NodeId)
  /-- "Deleting a unexpected non-tombstone leaf node" -/
  | leafIsNoTombstone (node : NodeId)
  /-- "leaf node has children" -/
  | leafHasChildren (node : NodeId)
  /-- "parent does not have child key" -/
  | notChildOfParent (node : NodeId)
  /-- "Cannot tombstone a leaf node" -/
  | tombstoningLeaf (node : NodeId)
  /-- "dec_lock_ref on node with node.mamba_lock_ref=0" -/
  | mambaNotLocked (node : NodeId)
  /-- "dec_lock_ref on node with node.full_lock_ref=0" -/
  | fullNotLocked (node : NodeId)
  /-- "Can not alloc mamba cache" -/
  | canNotAllocMamba
  /-- "It is required cache_len == page_aligned_len", and its like for unfinished requests -/
  | cacheLenUnaligned (cacheLen pageAlignedLen : Nat)
  /-- the state of the matched node is not the donated one -/
  | donatedStateLost
  /-- "req.cache_protected_len <= len(new_indices) + self.page_size - 1" -/
  | protectedBeyondMatch
  /-- "new_prefix_len <= len(new_indices)" -/
  | prefixBeyondMatch
  /-- "double free? mamba_index is None" -/
  | mambaIndexIsNone
  /-- "mamba_ping_pong_track_buffer_to_keep must be 0 or 1" -/
  | bufferToKeep (index : Nat)
  /-- an entry of the ping-pong buffer is read, and there is none -/
  | noTrackBuffer
  /-- "Not enough space for mamba cache" and "… for mamba ping pong idx" -/
  | notEnoughMamba
  /-- "Out of memory" -/
  | outOfMemory
  /-- "Unexpected overallocated KV cache" -/
  | overallocated
  /-- the scheduler does not do this to a request in this phase -/
  | notScheduled
  /-- a loop does not end -/
  | diverges
deriving DecidableEq, Repr

/-- `assert` -/
def check (condition : Bool) (failure : Failure) : Except Failure Unit :=
  if condition then .ok () else .error failure

/-! ### Nodes and LRU lists -/

structure Tree where
  nodes : NodeId → TreeNode
  nextId : NodeId
  fullLruList : List NodeId
  mambaLruList : List NodeId
  fullEvictableSize : Int
  mambaEvictableSize : Int
  fullProtectedSize : Int
  mambaProtectedSize : Int

def rootNode : NodeId := 0

def Tree.reset : Tree where
  nodes := fun _ => { fullLockRef := 1, mambaLockRef := 1 }
  nextId := 1
  fullLruList := []
  mambaLruList := []
  fullEvictableSize := 0
  mambaEvictableSize := 0
  fullProtectedSize := 0
  mambaProtectedSize := 0

/-- The two instances of `LRUList`. -/
inductive LruKind where
  | full
  | mamba
deriving DecidableEq, Repr

namespace Tree

def lru (t : Tree) : LruKind → List NodeId
  | .full => t.fullLruList
  | .mamba => t.mambaLruList

def setLru (t : Tree) (list : List NodeId) : LruKind → Tree
  | .full => { t with fullLruList := list }
  | .mamba => { t with mambaLruList := list }

def modify (t : Tree) (n : NodeId) (f : TreeNode → TreeNode) : Tree :=
  { t with nodes := Function.update t.nodes n (f (t.nodes n)) }

def listable (t : Tree) (kind : LruKind) (n : NodeId) : Bool :=
  match kind with
  | .full => true
  | .mamba => (t.nodes n).mambaValue.isSome

/-- The lock that a list looks at is free. -/
def unlocked (t : Tree) (kind : LruKind) (n : NodeId) : Bool :=
  match kind with
  | .full => (t.nodes n).fullLockRef == 0
  | .mamba => (t.nodes n).mambaLockRef == 0

def isLeaf (t : Tree) (n : NodeId) : Bool :=
  (t.nodes n).children.items.isEmpty

def resetNodeMru (t : Tree) (kind : LruKind) (n : NodeId) : Except Failure Tree := do
  check (n ∈ t.lru kind) (.resettingUnlisted n)
  check (t.listable kind n) (.resettingTombstone n)
  .ok (t.setLru (Recency.addAfter none n ((t.lru kind).erase n)) kind)

def resetParentsLoop (kind : LruKind) : Nat → Option NodeId → NodeId → Tree → Except Failure Tree
  | 0, _, n, t => if n = rootNode then .ok t else .error .diverges
  | fuel + 1, prev, n, t =>
    if n = rootNode then .ok t
    else if t.listable kind n then do
      check (n ∈ t.lru kind) (.resettingParents n)
      resetParentsLoop kind fuel (some n) (t.nodes n).parent
        (t.setLru (Recency.addAfter prev n ((t.lru kind).erase n)) kind)
    else resetParentsLoop kind fuel prev (t.nodes n).parent t

def resetNodeAndParentsMru (t : Tree) (kind : LruKind) (n : NodeId) : Except Failure Tree :=
  resetParentsLoop kind t.fullLruList.length none n t

def insertMru (t : Tree) (kind : LruKind) (n : NodeId) : Except Failure Tree := do
  check (t.listable kind n) (.insertingTombstone n)
  check (n ∉ t.lru kind) (.insertingListed n)
  .ok (t.setLru (n :: t.lru kind) kind)

def removeNode (t : Tree) (kind : LruKind) (n : NodeId) : Except Failure Tree := do
  check (n ∈ t.lru kind) (.removingUnlisted n)
  check (t.listable kind n) (.removingTombstone n)
  .ok (t.setLru ((t.lru kind).erase n) kind)

def getLruNoLock (t : Tree) : Option NodeId :=
  Recency.oldest (t.unlocked .mamba) t.mambaLruList

/-- What `get_leaf_lru_no_lock` stops at. -/
def evictableLeaf (t : Tree) (n : NodeId) : Bool :=
  t.unlocked .full n && t.isLeaf n

def getLeafLruNoLock (t : Tree) : Option NodeId :=
  Recency.oldest t.evictableLeaf t.fullLruList

def getPrevNoLock (t : Tree) (n : NodeId) : Except Failure (Option NodeId) := do
  check (n ∈ t.mambaLruList) (.prevOfUnlisted n)
  .ok (Recency.newerThan (t.unlocked .mamba) t.mambaLruList n)

def getPrevLeafNoLock (t : Tree) (n : NodeId) : Except Failure (Option NodeId) := do
  check (n ∈ t.fullLruList) (.prevOfUnlisted n)
  .ok (Recency.newerThan t.evictableLeaf t.fullLruList n)

/-! ### Splitting a node -/

def upperHalf (t : Tree) (pageSize : Nat) (child : NodeId) (splitLen : Nat) : TreeNode :=
  let node := t.nodes child
  { children := OrderedDict.empty.insert ((node.key.drop splitLen).childKey pageSize) child
    parent := node.parent
    key := node.key.take splitLen
    value := node.value.take splitLen
    mambaValue := none
    fullLockRef := node.fullLockRef
    mambaLockRef := 0 }

def splitNode (t : Tree) (pageSize : Nat) (child : NodeId) (splitLen : Nat) :
    Except Failure (Tree × NodeId) := do
  let key := (t.nodes child).key
  let parent := (t.nodes child).parent
  let hasMamba := (t.nodes child).mambaValue.isSome
  let new := t.nextId
  let t := { t.modify new (fun _ => t.upperHalf pageSize child splitLen) with nextId := new + 1 }
  let t ← t.removeNode .full child
  let t ← if hasMamba then t.removeNode .mamba child else .ok t
  let t := t.modify child (fun node => { node with
    parent := new
    key := node.key.drop splitLen
    value := node.value.drop splitLen })
  let t := t.modify parent (fun node => { node with
    children := node.children.insert (key.childKey pageSize) new })
  let t ← t.insertMru .full new
  let t ← t.insertMru .full child
  let t ← if hasMamba then t.insertMru .mamba child else .ok t
  .ok (t, new)

/-! ### Matching -/

def matchChild (t : Tree) (pageSize : Nat) (child : NodeId) (key : RadixKey) :
    Except Failure Nat := do
  check ((t.nodes child).key.extraKey == key.extraKey) .extraKeyMismatch
  .ok ((t.nodes child).key.matchLen pageSize key)

/-- What `_match_prefix_helper` has found: the values on the way, and the last node with a
    Mamba state with the number of values up to it. -/
structure Found where
  value : List (List Nat)
  bestLastNode : NodeId
  bestValueLen : Nat

def Found.update (found : Found) (t : Tree) (n : NodeId) : Found :=
  if (t.nodes n).mambaValue.isSome then
    { found with bestLastNode := n, bestValueLen := found.value.length }
  else found

def matchLoop (pageSize : Nat) : Nat → RadixKey → NodeId → Found → Tree →
    Except Failure (Found × Tree)
  | 0, key, n, found, t =>
    if key.length = 0 ∨ (t.nodes n).children.lookup (key.childKey pageSize) = none then
      .ok (found.update t n, t)
    else .error .diverges
  | fuel + 1, key, n, found, t =>
    if key.length = 0 then .ok (found.update t n, t)
    else
      match (t.nodes n).children.lookup (key.childKey pageSize) with
      | none => .ok (found.update t n, t)
      | some child => do
        let found := found.update t n
        let prefixLen ← t.matchChild pageSize child key
        if prefixLen < (t.nodes child).key.length then do
          let (t, new) ← t.splitNode pageSize child prefixLen
          let found := { found with value := found.value ++ [(t.nodes new).value] }
          .ok (found.update t new, t)
        else
          matchLoop pageSize fuel (key.drop prefixLen) child
            { found with value := found.value ++ [(t.nodes child).value] } t

def matchPrefixHelper (t : Tree) (pageSize : Nat) (key : RadixKey) :
    Except Failure (Found × Tree) :=
  matchLoop pageSize key.length key rootNode ⟨[], rootNode, 0⟩ t

/-! ### Locks -/

def lockFull (t : Tree) (n : NodeId) : Tree :=
  let node := t.nodes n
  let size : Int := if node.fullLockRef = 0 then node.value.length else 0
  { t.modify n (fun node => { node with fullLockRef := node.fullLockRef + 1 }) with
    fullEvictableSize := t.fullEvictableSize - size
    fullProtectedSize := t.fullProtectedSize + size }

def lockLoop : Nat → NodeId → Tree → Except Failure Tree
  | 0, n, t => if n = rootNode then .ok t else .error .diverges
  | fuel + 1, n, t =>
    if n = rootNode then .ok t else lockLoop fuel (t.nodes n).parent (t.lockFull n)

def lockMamba (t : Tree) (n : NodeId) : Tree :=
  let node := t.nodes n
  if node.mambaValue.isSome then
    let size : Int := if node.mambaLockRef = 0 then 1 else 0
    { t.modify n (fun node => { node with mambaLockRef := node.mambaLockRef + 1 }) with
      mambaEvictableSize := t.mambaEvictableSize - size
      mambaProtectedSize := t.mambaProtectedSize + size }
  else t

def incLockRef (t : Tree) (n : NodeId) : Except Failure Tree :=
  lockLoop t.fullLruList.length n (t.lockMamba n)

def unlockFull (t : Tree) (n : NodeId) : Except Failure Tree := do
  let node := t.nodes n
  check (node.fullLockRef > 0) (.fullNotLocked n)
  let size : Int := if node.fullLockRef = 1 then node.value.length else 0
  .ok { t.modify n (fun node => { node with fullLockRef := node.fullLockRef - 1 }) with
    fullEvictableSize := t.fullEvictableSize + size
    fullProtectedSize := t.fullProtectedSize - size }

/-- The loop of `dec_lock_ref`. -/
def unlockLoop : Nat → NodeId → Tree → Except Failure Tree
  | 0, n, t => if n = rootNode then .ok t else .error .diverges
  | fuel + 1, n, t =>
    if n = rootNode then .ok t
    else do
      let next ← t.unlockFull n
      unlockLoop fuel (t.nodes n).parent next

def unlockMamba (t : Tree) (n : NodeId) : Except Failure Tree :=
  let node := t.nodes n
  if node.mambaValue.isSome then do
    check (node.mambaLockRef > 0) (.mambaNotLocked n)
    let size : Int := if node.mambaLockRef = 1 then 1 else 0
    .ok { t.modify n (fun node => { node with mambaLockRef := node.mambaLockRef - 1 }) with
      mambaEvictableSize := t.mambaEvictableSize + size
      mambaProtectedSize := t.mambaProtectedSize - size }
  else .ok t

def decLockRef (t : Tree) (n : NodeId) : Except Failure Tree := do
  let unlocked ← t.unlockMamba n
  unlockLoop t.fullLruList.length n unlocked

/-! ### Deleting nodes -/

def popFromParent (t : Tree) (pageSize : Nat) (n : NodeId) : Except Failure Tree := do
  let key := (t.nodes n).key.childKey pageSize
  let parent := (t.nodes n).parent
  check ((t.nodes parent).children.lookup key == some n) (.notChildOfParent n)
  .ok (t.modify parent (fun node => { node with children := node.children.erase key }))

def deleteLeaf (t : Tree) (pageSize : Nat) (n : NodeId) : Except Failure Tree := do
  check (t.nodes n).mambaValue.isSome (.leafIsTombstone n)
  check (t.isLeaf n) (.leafHasChildren n)
  let t ← t.popFromParent pageSize n
  .ok { t with
    fullEvictableSize := t.fullEvictableSize - (t.nodes n).key.length
    mambaEvictableSize := t.mambaEvictableSize - 1 }

def tombstoneInternalNode (t : Tree) (n : NodeId) : Except Failure Tree := do
  check (!t.isLeaf n) (.tombstoningLeaf n)
  .ok { t.modify n (fun node => { node with mambaValue := none }) with
    mambaEvictableSize := t.mambaEvictableSize - 1 }

def deleteTombstoneLeaf (t : Tree) (pageSize : Nat) (n : NodeId) : Except Failure Tree := do
  check (t.nodes n).mambaValue.isNone (.leafIsNoTombstone n)
  check (t.isLeaf n) (.leafHasChildren n)
  let t ← t.popFromParent pageSize n
  .ok { t with fullEvictableSize := t.fullEvictableSize - (t.nodes n).key.length }

end Tree

/-! ### The cache: the tree and the two allocators -/

/-- The tree, the free list of the KV allocator in pages, and the free list of the Mamba
    pool. -/
structure Cache where
  tree : Tree
  freePages : List Nat
  freeSlots : List Nat

def pagesOf (pageSize : Nat) (indices : List Nat) : List Nat :=
  (indices.map (· / pageSize)).dedup.insertionSort (· ≤ ·)

structure Evicted where
  full : Nat := 0
  mamba : Nat := 0
deriving DecidableEq, Repr

namespace Cache

variable (cfg : CacheConfig)

/-- A new cache over `numPages` pages of KV indices and `size` Mamba slots. -/
def reset (numPages size : Nat) : Cache where
  tree := .reset
  freePages := List.range' 1 numPages
  freeSlots := List.range' 1 size

/-- `free` of `TokenToKVPoolAllocator` and of `PagedTokenToKVPoolAllocator`. -/
def freeKv (c : Cache) (indices : List Nat) : Cache :=
  if cfg.pageSize = 1 then { c with freePages := c.freePages ++ indices }
  else { c with freePages := pagesOf cfg.pageSize indices ++ c.freePages }

/-- `free` of the Mamba pool. -/
def freeMamba (c : Cache) (slot : Nat) : Cache :=
  { c with freeSlots := c.freeSlots ++ [slot] }

/-- `mamba_pool.alloc(1)`. -/
def allocMamba (c : Cache) : Option (Nat × Cache) :=
  match c.freeSlots with
  | [] => none
  | slot :: rest => some (slot, { c with freeSlots := rest })

/-! ### Eviction -/

def deleteTombstonesLoop : Nat → NodeId → Nat → Cache → Except Failure (NodeId × Nat × Cache)
  | 0, _, _, _ => .error .diverges
  | fuel + 1, n, fullNumEvicted, c =>
    let parent := (c.tree.nodes n).parent
    let node := c.tree.nodes parent
    if node.mambaValue.isSome || !c.tree.isLeaf parent then .ok (n, fullNumEvicted, c)
    else if parent = rootNode then .ok (n, fullNumEvicted, c)
    else if node.fullLockRef > 0 then .ok (n, fullNumEvicted, c)
    else do
      check (node.mambaLockRef == 0) (.tombstoneLocked parent)
      let c := c.freeKv cfg node.value
      let tree ← c.tree.removeNode .full parent
      let tree ← tree.deleteTombstoneLeaf cfg.pageSize parent
      deleteTombstonesLoop fuel parent (fullNumEvicted + node.value.length) { c with tree }

def iterativelyDeleteTombstoneLeaf (c : Cache) (n : NodeId) :
    Except Failure (NodeId × Nat × Cache) :=
  deleteTombstonesLoop cfg (c.tree.fullLruList.length + 1) n 0 c

def evictLeafNode (c : Cache) (x : NodeId) (isEvictMamba : Bool) :
    Except Failure (Evicted × NodeId × Option NodeId × Cache) := do
  let node := c.tree.nodes x
  check (node.fullLockRef == 0 && node.mambaLockRef == 0) (.evictingLocked x)
  match node.mambaValue with
  | none => .error (.evictingTombstone x)
  | some slot =>
    let c := (c.freeKv cfg node.value).freeMamba slot
    let xNext ← if isEvictMamba then c.tree.getPrevNoLock x else c.tree.getPrevLeafNoLock x
    let tree ← c.tree.removeNode .full x
    let tree ← tree.removeNode .mamba x
    let tree ← tree.deleteLeaf cfg.pageSize x
    let (last, leafFullNumEvicted, c) ←
      iterativelyDeleteTombstoneLeaf cfg { c with tree } x
    .ok (⟨node.value.length + leafFullNumEvicted, 1⟩, last, xNext, c)

/-- One round of the loop of `evict_mamba`. -/
def evictMambaNode (c : Cache) (x : NodeId) : Except Failure (Nat × Option NodeId × Cache) := do
  let node := c.tree.nodes x
  match node.mambaValue with
  | none => .error (.noMambaValue x)
  | some slot =>
    check (x ≠ rootNode) .evictingRoot
    check (node.mambaLockRef == 0) (.mambaInUse x)
    if !c.tree.isLeaf x then
      let c := c.freeMamba slot
      let xNext ← c.tree.getPrevNoLock x
      let tree ← c.tree.removeNode .mamba x
      let tree ← tree.tombstoneInternalNode x
      .ok (1, xNext, { c with tree })
    else
      let (evicted, _, xNext, c) ← evictLeafNode cfg c x true
      .ok (evicted.mamba, xNext, c)

/-- The loop of `evict_mamba`. -/
def evictMambaLoop (mambaNum : Int) :
    Nat → Option NodeId → Nat → Cache → Except Failure (Nat × Cache)
  | _, none, evicted, c => .ok (evicted, c)
  | 0, some x, evicted, c =>
    if evicted < mambaNum ∧ x ∈ c.tree.mambaLruList then .error .diverges else .ok (evicted, c)
  | fuel + 1, some x, evicted, c =>
    if evicted < mambaNum ∧ x ∈ c.tree.mambaLruList then do
      let (delta, xNext, c) ← evictMambaNode cfg c x
      evictMambaLoop mambaNum fuel xNext (evicted + delta) c
    else .ok (evicted, c)

def evictMamba (c : Cache) (mambaNum : Int) : Except Failure (Nat × Cache) :=
  if cfg.disable || mambaNum ≤ 0 then .ok (0, c)
  else evictMambaLoop cfg mambaNum c.tree.mambaLruList.length c.tree.getLruNoLock 0 c

/-- One round of the loop of `evict_full`. -/
def evictFullNode (c : Cache) (x : NodeId) : Except Failure (Nat × Option NodeId × Cache) := do
  check (x ≠ rootNode) .evictingRoot
  let (evicted, last, xNext, c) ← evictLeafNode cfg c x false
  -- the parent may have become the least recently used leaf
  let xNext :=
    if c.tree.isLeaf (c.tree.nodes last).parent then c.tree.getLeafLruNoLock else xNext
  .ok (evicted.full, xNext, c)

/-- The loop of `evict_full`. -/
def evictFullLoop (fullNumTokens : Int) :
    Nat → Option NodeId → Nat → Cache → Except Failure (Nat × Cache)
  | _, none, evicted, c => .ok (evicted, c)
  | 0, some x, evicted, c =>
    if evicted < fullNumTokens ∧ x ∈ c.tree.fullLruList then .error .diverges else .ok (evicted, c)
  | fuel + 1, some x, evicted, c =>
    if evicted < fullNumTokens ∧ x ∈ c.tree.fullLruList then do
      let (delta, xNext, c) ← evictFullNode cfg c x
      evictFullLoop fullNumTokens fuel xNext (evicted + delta) c
    else .ok (evicted, c)

def evictFull (c : Cache) (fullNumTokens : Int) : Except Failure (Nat × Cache) :=
  if cfg.disable || fullNumTokens ≤ 0 then .ok (0, c)
  else evictFullLoop cfg fullNumTokens c.tree.fullLruList.length c.tree.getLeafLruNoLock 0 c

/-! ### Locks of the cache -/

def incLockRef (c : Cache) (n : NodeId) : Except Failure Cache :=
  if cfg.disable then .ok c
  else do
    let tree ← c.tree.incLockRef n
    .ok { c with tree }

def decLockRef (c : Cache) (n : NodeId) : Except Failure Cache :=
  if cfg.disable then .ok c
  else do
    let tree ← c.tree.decLockRef n
    .ok { c with tree }

/-! ### `match_prefix` -/

/-- `MatchResult`, with what copy-on-write gives the request. -/
structure MatchResult where
  deviceIndices : List Nat
  lastDeviceNode : NodeId
  mambaBranchingSeqlen : Option Nat := none
  /-- `req.mamba_pool_idx` afterwards -/
  mambaPoolIdx : Option Nat := none
  /-- `req.mamba_cow_src_index`, when it was set -/
  mambaCowSrcIndex : Option Nat := none
deriving DecidableEq, Repr

def allocForCow (c : Cache) (lastNode : NodeId) : Except Failure (Nat × Cache) :=
  match c.allocMamba with
  | some (slot, c) => .ok (slot, c)
  | none => do
    let c ← incLockRef cfg c lastNode
    let (_, c) ← evictMamba cfg c 1
    match c.allocMamba with
    | none => do
      let _ ← decLockRef cfg c lastNode
      .error .canNotAllocMamba
    | some (slot, c) => do
      let c ← decLockRef cfg c lastNode
      .ok (slot, c)

/-- The position up to which the branching request should leave a state. -/
def branchingSeqlen (found : Tree.Found) : Option Nat :=
  if found.bestValueLen < found.value.length then
    let aligned := (found.value.map List.length).sum / cfg.mambaCacheChunkSize *
      cfg.mambaCacheChunkSize
    if 0 < aligned then some aligned else none
  else none

def matchPostProcessor (c : Cache) (found : Tree.Found) (cow : Option (Option Nat)) :
    Except Failure (MatchResult × Cache) := do
  let lastNode := found.bestLastNode
  let tree ← c.tree.resetNodeAndParentsMru .full lastNode
  let tree ← tree.resetNodeAndParentsMru .mamba lastNode
  let c := { c with tree }
  let result : MatchResult :=
    { deviceIndices := (found.value.take found.bestValueLen).flatten
      lastDeviceNode := lastNode
      mambaBranchingSeqlen := branchingSeqlen cfg found
      mambaPoolIdx := cow.join }
  match cow, (c.tree.nodes lastNode).mambaValue with
  | some none, some source => do
    let (slot, c) ← allocForCow cfg c lastNode
    .ok ({ result with mambaPoolIdx := some slot, mambaCowSrcIndex := some source }, c)
  | some (some _), some source => .ok ({ result with mambaCowSrcIndex := some source }, c)
  | _, _ => .ok (result, c)

def matchPrefix (c : Cache) (key : RadixKey) (cow : Option (Option Nat)) :
    Except Failure (MatchResult × Cache) :=
  if cfg.disable || key.length == 0 then
    .ok ({ deviceIndices := [], lastDeviceNode := rootNode, mambaPoolIdx := cow.join }, c)
  else do
    let (found, tree) ← c.tree.matchPrefixHelper cfg.pageSize key
    matchPostProcessor cfg { c with tree } found cow

/-! ### `insert` -/

def touch (t : Tree) (n : NodeId) : Except Failure Tree := do
  let t ← t.resetNodeMru .full n
  if (t.nodes n).mambaValue.isSome then t.resetNodeMru .mamba n else .ok t

/-- Where the loop of `_insert_helper` stops. -/
structure Descent where
  node : NodeId
  key : RadixKey
  value : List Nat
  totalPrefixLength : Nat

/-- The loop of `_insert_helper`. The new indices of tokens that the tree has already are
    freed, except for those before `prev_prefix_len`. -/
def insertLoop (prevPrefixLen : Nat) : Nat → Descent → Cache → Except Failure (Descent × Cache)
  | 0, d, c =>
    if d.key.length = 0 ∨
        (c.tree.nodes d.node).children.lookup (d.key.childKey cfg.pageSize) = none then
      .ok (d, c)
    else .error .diverges
  | fuel + 1, d, c =>
    if d.key.length = 0 then .ok (d, c)
    else
      match (c.tree.nodes d.node).children.lookup (d.key.childKey cfg.pageSize) with
      | none => .ok (d, c)
      | some node => do
        let tree ← touch c.tree node
        let prefixLen ← tree.matchChild cfg.pageSize node d.key
        let c := { c with tree }
        let c :=
          if prevPrefixLen < d.totalPrefixLength + prefixLen then
            c.freeKv cfg ((d.value.take prefixLen).drop (prevPrefixLen - d.totalPrefixLength))
          else c
        let (tree, node) ←
          if prefixLen < (c.tree.nodes node).key.length then
            c.tree.splitNode cfg.pageSize node prefixLen
          else .ok (c.tree, node)
        insertLoop prevPrefixLen fuel
          { node
            key := d.key.drop prefixLen
            value := d.value.drop prefixLen
            totalPrefixLength := d.totalPrefixLength + prefixLen } { c with tree }

/-- What `_insert_helper` does where the loop has stopped: a new leaf, a state for a
    tombstone, or nothing. -/
def finishInsert (d : Descent) (mambaValue : Nat) (t : Tree) : Except Failure (Bool × Tree) :=
  if d.key.length ≠ 0 then do
    let new := t.nextId
    let t := { t.modify new (fun _ =>
      { parent := d.node, key := d.key, value := d.value, mambaValue := some mambaValue }) with
        nextId := new + 1 }
    let t ← t.insertMru .full new
    let t ← t.insertMru .mamba new
    let t := t.modify d.node (fun node =>
      { node with children := node.children.insert (d.key.childKey cfg.pageSize) new })
    .ok (false, { t with
      fullEvictableSize := t.fullEvictableSize + d.value.length
      mambaEvictableSize := t.mambaEvictableSize + 1 })
  else if (t.nodes d.node).mambaValue.isNone then do
    let t := t.modify d.node (fun node => { node with mambaValue := some mambaValue })
    let t ← t.resetNodeMru .full d.node
    let t ← t.insertMru .mamba d.node
    .ok (false, { t with mambaEvictableSize := t.mambaEvictableSize + 1 })
  else do
    let t ← t.resetNodeMru .full d.node
    let t ← t.resetNodeMru .mamba d.node
    .ok (true, t)

structure InsertResult where
  prefixLen : Nat
  mambaExist : Bool
deriving DecidableEq, Repr

/-- `insert`, starting at the root. -/
def insert (c : Cache) (key : RadixKey) (value : List Nat) (mambaValue prevPrefixLen : Nat) :
    Except Failure (InsertResult × Cache) :=
  if cfg.disable then .ok (⟨0, false⟩, c)
  else if key.length = 0 then .ok (⟨0, true⟩, c)
  else do
    let (d, c) ← insertLoop cfg prevPrefixLen key.length ⟨rootNode, key, value, 0⟩ c
    let (mambaExist, tree) ← finishInsert cfg d mambaValue c.tree
    .ok (⟨d.totalPrefixLength, mambaExist⟩, { c with tree })

end Cache

end Engram.Radix
