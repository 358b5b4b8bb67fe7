import Engram.Alloc.Pools
import Engram.Lib.Transition

/-!
# The allocator for sliding window attention

`SWATokenToKVPoolAllocator` hands out indices of the full pool, drives an allocator of its own for
the sliding window layers, and keeps in a mapping which index of that pool stands behind one of
the full pool. Its callers are modelled by the full indices that they have been handed and have
not freed.
-/

namespace Engram.Alloc

open Lib
open Lib.Transition

inductive Fault where
  | assertion
deriving DecidableEq, Repr

/-- `SWATokenToKVPoolAllocator`. -/
structure SwaAllocator where
  pageSize : Nat
  sizeFull : Nat
  sizeSwa : Nat
  fullAttnAllocator : Allocator
  swaAttnAllocator : Allocator
  fullToSwaIndexMapping : Nat → Int

namespace SwaAllocator

/-- `__init__` and `clear`. -/
def init (sizeFull sizeSwa pageSize : Nat) (needSort : Bool) : SwaAllocator where
  pageSize := pageSize
  sizeFull := sizeFull
  sizeSwa := sizeSwa
  fullAttnAllocator := .clear pageSize (sizeFull / pageSize) needSort
  swaAttnAllocator := .clear pageSize (sizeSwa / pageSize) needSort
  fullToSwaIndexMapping := fun _ => 0

variable (s : SwaAllocator)

def translateLocFromFullToSwa (loc : Int) : Int :=
  if loc = -1 then -1 else s.fullToSwaIndexMapping loc.toNat

def setFullToSwaMapping (fullIndices : List Nat) (swaIndices : List Int) : SwaAllocator :=
  { s with
    fullToSwaIndexMapping := applyStores s.fullToSwaIndexMapping (fullIndices.zip swaIndices) }

def alloc (needSize : Nat) : Except Fault (Option (List Nat) × SwaAllocator) :=
  if s.pageSize ≠ 1 then .error .assertion
  else if needSize > s.fullAttnAllocator.availableSize then .ok (none, s)
  else if needSize > s.swaAttnAllocator.availableSize then .ok (none, s)
  else
    match s.fullAttnAllocator.alloc needSize, s.swaAttnAllocator.alloc needSize with
    | (some allocFullIndices, full), (some allocSwaIndices, swa) =>
      .ok (some allocFullIndices,
        { s with fullAttnAllocator := full, swaAttnAllocator := swa }.setFullToSwaMapping
          allocFullIndices (allocSwaIndices.map Nat.cast))
    | _, _ => .error .assertion

def swaBatch (batch : List Extend) : List Extend :=
  batch.map fun e => { e with lastLoc := s.translateLocFromFullToSwa e.lastLoc }

/-- `alloc_extend`, where `extend_num_tokens` is the number of tokens of the batch. -/
def allocExtend (fullLaunch swaLaunch : Launch) (batch : List Extend) :
    Except Fault (Option (List Nat) × SwaAllocator) :=
  if s.pageSize ≤ 1 then .error .assertion
  else
    let numNewPages := getNumNewPages s.pageSize batch
    if numNewPages > s.fullAttnAllocator.availableSize / s.pageSize then .ok (none, s)
    else if numNewPages > s.swaAttnAllocator.availableSize / s.pageSize then .ok (none, s)
    else
      let extendNumTokens := tally batch (·.extendLen)
      match s.fullAttnAllocator.allocExtend fullLaunch batch extendNumTokens numNewPages,
        s.swaAttnAllocator.allocExtend swaLaunch (s.swaBatch batch) extendNumTokens
          numNewPages with
      | (some allocFullIndices, full), (some allocSwaIndices, swa) =>
        .ok (some (allocFullIndices.map Int.toNat),
          { s with fullAttnAllocator := full, swaAttnAllocator := swa }.setFullToSwaMapping
            (allocFullIndices.map Int.toNat) allocSwaIndices)
      | _, _ => .error .assertion

def allocExtendSwaTail (fullLaunch swaLaunch : Launch) (e : Extend) (swaTailLen : Nat) :
    Except Fault (Option (List Nat) × SwaAllocator) :=
  if s.pageSize ≤ 1 then .error .assertion
  else if swaTailLen > e.extendLen then .error .assertion
  else
    let numFullPages := getNumNewPages s.pageSize [e]
    let numSwaPages := numPages s.pageSize swaTailLen
    if numFullPages > s.fullAttnAllocator.availableSize / s.pageSize then .ok (none, s)
    else if numSwaPages > s.swaAttnAllocator.availableSize / s.pageSize then .ok (none, s)
    else
      match s.fullAttnAllocator.allocExtend fullLaunch [e] e.extendLen with
      | (none, _) => .error .assertion
      | (some allocFullIndices, full) =>
        let s := { s with fullAttnAllocator := full }
        let fullIndices := allocFullIndices.map Int.toNat
        if swaTailLen = 0 then .ok (some fullIndices, s)
        else
          match s.swaAttnAllocator.allocExtend swaLaunch [⟨0, swaTailLen, -1⟩] swaTailLen with
          | (none, _) => .error .assertion
          | (some allocSwaIndices, swa) =>
            .ok (some fullIndices,
              { s with swaAttnAllocator := swa }.setFullToSwaMapping
                (fullIndices.drop (fullIndices.length - swaTailLen)) allocSwaIndices)

def swaDecodeBatch (batch : List (Nat × Int)) : List (Nat × Int) :=
  batch.map fun (seqLen, lastLoc) => (seqLen, s.translateLocFromFullToSwa lastLoc)

def allocDecode (fullLaunch swaLaunch : Launch) (batch : List (Nat × Int)) :
    Except Fault (Option (List Nat) × SwaAllocator) :=
  if s.pageSize ≤ 1 then .error .assertion
  else
    match s.fullAttnAllocator.allocDecode fullLaunch batch,
      s.swaAttnAllocator.allocDecode swaLaunch (s.swaDecodeBatch batch) with
    | (some allocFullIndices, full), (some allocSwaIndices, swa) =>
      .ok (some (allocFullIndices.map Int.toNat),
        { s with fullAttnAllocator := full, swaAttnAllocator := swa }.setFullToSwaMapping
          (allocFullIndices.map Int.toNat) allocSwaIndices)
    | (_, full), (_, swa) =>
      .ok (none, { s with fullAttnAllocator := full, swaAttnAllocator := swa })

def freeSwa (freeIndex : List Nat) : SwaAllocator :=
  let swaIndices := (freeIndex.map s.fullToSwaIndexMapping).filter (0 < ·)
  { s with
    swaAttnAllocator := s.swaAttnAllocator.free (swaIndices.map Int.toNat)
    fullToSwaIndexMapping := fun i => if i ∈ freeIndex then 0 else s.fullToSwaIndexMapping i }

def free (freeIndex : List Nat) : Except Fault SwaAllocator :=
  if freeIndex.isEmpty then .ok s
  else
    let s := { s with fullAttnAllocator := s.fullAttnAllocator.free freeIndex }.freeSwa freeIndex
    if s.fullAttnAllocator.availableSize ≤ s.sizeFull ∧
        s.swaAttnAllocator.availableSize ≤ s.sizeSwa then .ok s
    else .error .assertion

end SwaAllocator

/-! ### Callers -/

inductive Request where
  | alloc (needSize : Nat)
  | allocExtend (fullLaunch swaLaunch : Launch) (batch : List Extend)
  | allocExtendSwaTail (fullLaunch swaLaunch : Launch) (e : Extend) (swaTailLen : Nat)
  | allocDecode (fullLaunch swaLaunch : Launch) (batch : List (Nat × Int))

inductive Call where
  | allocate (request : Request)
  | free (freeIndex : List Nat)
  | freeSwa (freeIndex : List Nat)

def SwaAllocator.allocate (s : SwaAllocator) :
    Request → Except Fault (Option (List Nat) × SwaAllocator)
  | .alloc needSize => s.alloc needSize
  | .allocExtend fullLaunch swaLaunch batch => s.allocExtend fullLaunch swaLaunch batch
  | .allocExtendSwaTail fullLaunch swaLaunch e swaTailLen =>
    s.allocExtendSwaTail fullLaunch swaLaunch e swaTailLen
  | .allocDecode fullLaunch swaLaunch batch => s.allocDecode fullLaunch swaLaunch batch

/-- The allocator, and the full indices that its callers hold. -/
structure Holders where
  allocator : SwaAllocator
  held : List Nat

namespace Holders

def init (sizeFull sizeSwa pageSize : Nat) (needSort : Bool) : Holders where
  allocator := .init sizeFull sizeSwa pageSize needSort
  held := []

def step (s : Holders) : Call → Except Fault Holders
  | .allocate request =>
    match s.allocator.allocate request with
    | .ok (some indices, allocator) => .ok ⟨allocator, s.held ++ indices⟩
    | .ok (none, allocator) => .ok { s with allocator }
    | .error fault => .error fault
  | .free freeIndex =>
    match s.allocator.free freeIndex with
    | .ok allocator => .ok ⟨allocator, s.held.filter (· ∉ freeIndex)⟩
    | .error fault => .error fault
  | .freeSwa freeIndex => .ok { s with allocator := s.allocator.freeSwa freeIndex }

variable (s : Holders)

/-- A request that goes on inside a page gives its last location there. -/
def Continues (e : Extend) : Prop :=
  e.prefixLen ≤ e.seqLen ∧
    (e.prefixLen % s.allocator.pageSize ≠ 0 →
      0 ≤ e.lastLoc ∧ e.lastLoc.toNat ∈ s.held ∧
        (e.lastLoc.toNat + 1) % s.allocator.pageSize =
          e.prefixLen % s.allocator.pageSize)
deriving Decidable

def WholePages (freeIndex : List Nat) : Prop :=
  freeIndex.Nodup ∧ ∀ i ∈ freeIndex,
    (∃ j ∈ s.held, j / s.allocator.pageSize = i / s.allocator.pageSize) ∧
      ∀ j ∈ s.held, j / s.allocator.pageSize = i / s.allocator.pageSize → j ∈ freeIndex
deriving Decidable

/-- The arguments that a call can be given. -/
def Proper : Call → Prop
  | .allocate (.alloc _) => True
  | .allocate (.allocExtend _ _ batch) => ∀ e ∈ batch, s.Continues e
  | .allocate (.allocExtendSwaTail _ _ e swaTailLen) =>
    s.Continues e ∧ (e.seqLen - swaTailLen) % s.allocator.pageSize = 0
  | .allocate (.allocDecode _ _ batch) =>
    (∀ request ∈ batch, 1 ≤ request.1) ∧ ∀ e ∈ Allocator.nextTokens batch, s.Continues e
  | .free freeIndex => s.WholePages freeIndex
  | .freeSwa freeIndex => s.WholePages freeIndex

def Backed (e : Extend) : Prop :=
  e.prefixLen % s.allocator.pageSize ≠ 0 →
    s.allocator.fullToSwaIndexMapping e.lastLoc.toNat ≠ 0
deriving Decidable

/-- Requests go on only in pages that have kept their part of the other pool, and a decode does
    not find enough pages in one pool only. -/
def Supported : Call → Prop
  | .allocate (.allocExtend _ _ batch) => ∀ e ∈ batch, s.Backed e
  | .allocate (.allocDecode _ _ batch) =>
    (∀ e ∈ Allocator.nextTokens batch, s.Backed e) ∧
      (getNumNewPagesDecode s.allocator.pageSize (batch.map (·.1)) ≤
          s.allocator.fullAttnAllocator.availableSize / s.allocator.pageSize ↔
        getNumNewPagesDecode s.allocator.pageSize (batch.map (·.1)) ≤
          s.allocator.swaAttnAllocator.availableSize / s.allocator.pageSize)
  | _ => True

instance : ∀ call, Decidable (s.Proper call)
  | .allocate (.alloc _) => instDecidableTrue
  | .allocate (.allocExtend _ _ batch) => inferInstanceAs (Decidable (∀ e ∈ batch, s.Continues e))
  | .allocate (.allocExtendSwaTail ..) => inferInstanceAs (Decidable (_ ∧ _))
  | .allocate (.allocDecode _ _ batch) =>
    inferInstanceAs (Decidable ((∀ request ∈ batch, 1 ≤ request.1) ∧
      ∀ e ∈ Allocator.nextTokens batch, s.Continues e))
  | .free freeIndex | .freeSwa freeIndex => inferInstanceAs (Decidable (s.WholePages freeIndex))

instance : ∀ call, Decidable (s.Supported call)
  | .allocate (.allocExtend _ _ batch) => inferInstanceAs (Decidable (∀ e ∈ batch, s.Backed e))
  | .allocate (.allocDecode _ _ batch) =>
    inferInstanceAs (Decidable ((∀ e ∈ Allocator.nextTokens batch, s.Backed e) ∧ (_ ↔ _)))
  | .allocate (.alloc _) | .allocate (.allocExtendSwaTail ..) | .free _ | .freeSwa _ =>
    instDecidableTrue

end Holders

end Engram.Alloc
