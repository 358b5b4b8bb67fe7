import Engram.Lib.Blocks
import Engram.Lib.Forest
import Engram.Lib.Stores
import Mathlib.Data.List.Sort

/-!
# The paged allocator

`PagedTokenToKVPoolAllocator`: KV indices are handed out in pages. A batch of requests is
extended by a kernel with one program for each request; the programs store to one tensor, each
to its own part of it. `alloc_extend_naive` does the same in a loop.
-/

namespace Engram.Alloc

open Lib

/-- A request of a batch that is extended: `prefix_lens`, `seq_lens` and `last_loc`. The last
    location is -1 when there is none. -/
structure Extend where
  prefixLen : Nat
  seqLen : Nat
  lastLoc : Int
deriving DecidableEq, Repr, Inhabited

/-- `(len + page_size - 1) // page_size`. -/
def numPages (pageSize len : Nat) : Nat :=
  (len + pageSize - 1) / pageSize

namespace Extend

def extendLen (e : Extend) : Nat :=
  e.seqLen - e.prefixLen

def numNewPages (pageSize : Nat) (e : Extend) : Nat :=
  numPages pageSize e.seqLen - numPages pageSize e.prefixLen

end Extend

/-- `get_num_new_pages` with prefix lengths. -/
def getNumNewPages (pageSize : Nat) (batch : List Extend) : Nat :=
  tally batch (·.numNewPages pageSize)

/-- `get_num_new_pages` for a decode. -/
def getNumNewPagesDecode (pageSize : Nat) (seqLens : List Nat) : Nat :=
  seqLens.countP (· % pageSize == 1)

/-! ### Kernels -/

section Kernels

/-- `tl.store` with a mask. -/
def tlStore (offsets : List Nat) (mask : Nat → Bool) (pointer : Nat → Nat) (value : Nat → Int) :
    List (Nat × Int) :=
  (offsets.filter mask).map fun offset => (pointer offset, value offset)

def tlSum (bsUpper pid : Nat) (value : Nat → Nat) : Nat :=
  tally (List.range bsUpper) fun lane => if lane ≤ pid then value lane else 0

def blockExtend : Nat := 4096

variable (pageSize : Nat) (batch : List Extend) (freePages : List Nat) (bsUpper pid : Nat)

def allocExtendKernel : List (Nat × Int) :=
  let own := batch.getD pid default
  let seqLen := own.seqLen
  let preLen := own.prefixLen
  let outputStartLoc := tlSum bsUpper pid (fun lane => (batch.getD lane default).extendLen) -
    own.extendLen
  let numPageStartLocSelf := own.numNewPages pageSize
  let newPageStartLoc :=
    tlSum bsUpper pid (fun lane => (batch.getD lane default).numNewPages pageSize) -
      numPageStartLocSelf
  -- Part 1: fill the old partial page
  let numPart1 := min seqLen (numPages pageSize preLen * pageSize) - preLen
  let offsetOnePage := List.range pageSize
  let part1 := tlStore offsetOnePage (· < numPart1) (outputStartLoc + ·) (own.lastLoc + 1 + ·)
  if preLen + numPart1 = seqLen then part1
  else
    -- Part 2: fill the new full pages using a dynamic blocked loop
    let numPart2 := seqLen / pageSize * pageSize - numPages pageSize preLen * pageSize
    let numBlocks := (numPart2 + blockExtend - 1) / blockExtend
    let part2 := (List.range numBlocks).flatMap fun blockId =>
      tlStore ((List.range blockExtend).map (blockId * blockExtend + ·)) (· < numPart2)
        (outputStartLoc + numPart1 + ·)
        fun offset => (freePages.getD (newPageStartLoc + offset / pageSize) 0 * pageSize +
          offset % pageSize : Nat)
    if preLen + numPart1 + numPart2 = seqLen then part1 ++ part2
    else
      -- Part 3: fill the new partial page
      let numPart3 := seqLen - seqLen / pageSize * pageSize
      let startLoc := freePages.getD (newPageStartLoc + numPageStartLocSelf - 1) 0
      let part3 := tlStore offsetOnePage (· < numPart3) (outputStartLoc + numPart1 + numPart2 + ·)
        fun offset => (startLoc * pageSize + offset : Nat)
      part1 ++ part2 ++ part3

def allocDecodeKernel : List (Nat × Int) :=
  let own := batch.getD pid default
  let numPageStartLocSelf := own.numNewPages pageSize
  let newPageStartLoc :=
    tlSum bsUpper pid (fun lane => (batch.getD lane default).numNewPages pageSize) -
      numPageStartLocSelf
  if numPageStartLocSelf = 0 then [(pid, own.lastLoc + 1)]
  else [(pid, (freePages.getD newPageStartLoc 0 * pageSize : Nat))]

end Kernels

/-! ### The loop without a kernel -/

/-- What the launch of a kernel leaves open: what the new tensor holds before it, and in which
    order the stores of its programs arrive. -/
structure Launch where
  empty : Nat → Int
  order : List (Nat × Int) → List (Nat × Int)
  perm : ∀ stores, (order stores).Perm stores

/-- The programs run one after the other. -/
def Launch.sequential : Launch where
  empty := fun _ => 0
  order := id
  perm := fun _ => List.Perm.refl _

/-- The tensor `out_indices` after the stores of all programs. -/
def Launch.outIndices (launch : Launch) (length : Nat) (stores : List (Nat × Int)) : List Int :=
  (List.range length).map (applyStores launch.empty (launch.order stores))

def bitLength (n : Nat) : Nat :=
  if n = 0 then 0 else n.log2 + 1

def nextPowerOf2 (n : Nat) : Nat :=
  if 0 < n then 1 <<< bitLength (n - 1) else 1

/-- `PagedTokenToKVPoolAllocator`, and `TokenToKVPoolAllocator` whose pages are single
    indices. -/
structure Allocator where
  pageSize : Nat
  freePages : List Nat
  releasePages : List Nat := []
  needSort : Bool := false
deriving Repr, DecidableEq

namespace Allocator

def clear (pageSize numPages : Nat) (needSort : Bool) : Allocator where
  pageSize := pageSize
  freePages := List.range' 1 numPages
  needSort := needSort

def availableSize (a : Allocator) : Nat :=
  (a.freePages.length + a.releasePages.length) * a.pageSize

def mergeAndSortFree (a : Allocator) : Allocator :=
  if a.releasePages.length > 0 then
    { a with
      freePages := (a.freePages ++ a.releasePages).insertionSort (· ≤ ·)
      releasePages := [] }
  else a

def refill (a : Allocator) (needed : Nat) : Allocator :=
  if a.needSort && decide (needed > a.freePages.length) then a.mergeAndSortFree else a

/-- `free_pages[num_pages:]`. -/
def dropPages (a : Allocator) (numPages : Nat) : Allocator :=
  { a with freePages := a.freePages.drop numPages }

def alloc (a : Allocator) (needSize : Nat) : Option (List Nat) × Allocator :=
  let numPages := needSize / a.pageSize
  let a := a.refill numPages
  if numPages > a.freePages.length then (none, a)
  else
    (some (blocks a.pageSize (a.freePages.take numPages)), a.dropPages numPages)

def extendStores (a : Allocator) (batch : List Extend) : List (Nat × Int) :=
  (List.range batch.length).flatMap
    (allocExtendKernel a.pageSize batch a.freePages (nextPowerOf2 batch.length))

def decodeStores (a : Allocator) (batch : List Extend) : List (Nat × Int) :=
  (List.range batch.length).flatMap
    (allocDecodeKernel a.pageSize batch a.freePages (nextPowerOf2 batch.length))

def takePages (a : Allocator) (numNewPages : Nat) (outIndices : List Int) :
    Option (List Int) × Allocator :=
  if numNewPages > a.freePages.length then (none, a)
  else (some outIndices, a.dropPages numNewPages)

def allocExtend (a : Allocator) (launch : Launch) (batch : List Extend) (extendNumTokens : Nat)
    (numNewPages : Option Nat := none) : Option (List Int) × Allocator :=
  let a := a.refill (extendNumTokens / a.pageSize + batch.length + 1)
  a.takePages (numNewPages.getD (getNumNewPages a.pageSize batch))
    (launch.outIndices extendNumTokens (a.extendStores batch))

def nextTokens (batch : List (Nat × Int)) : List Extend :=
  batch.map fun (seqLen, lastLoc) => ⟨seqLen - 1, seqLen, lastLoc⟩

def allocDecode (a : Allocator) (launch : Launch) (batch : List (Nat × Int)) :
    Option (List Int) × Allocator :=
  let a := a.refill batch.length
  a.takePages (getNumNewPagesDecode a.pageSize (batch.map (·.1)))
    (launch.outIndices batch.length (a.decodeStores (nextTokens batch)))

def free (a : Allocator) (freeIndex : List Nat) : Allocator :=
  if freeIndex.isEmpty then a
  else if a.pageSize = 1 then
    if a.needSort then { a with releasePages := a.releasePages ++ freeIndex }
    else { a with freePages := a.freePages ++ freeIndex }
  else
    let freePageIndices := (freeIndex.map (· / a.pageSize)).dedup.insertionSort (· ≤ ·)
    if a.needSort then { a with releasePages := freePageIndices ++ a.releasePages }
    else { a with freePages := freePageIndices ++ a.freePages }

end Allocator

end Engram.Alloc
