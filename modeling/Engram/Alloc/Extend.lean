import Engram.Alloc.Paged

/-!
# Extending a batch of requests

The programs of the kernel store, each from its own place on, the locations of their requests: the
rest of the old page, then the request's own new pages. So does the loop without a kernel. The new
pages of the batch are the first ones of the free list, in the order of the requests
(`allocExtend_correct`).
-/

namespace Engram.Alloc

open Lib List

/-! ### Numbers of pages -/

section Pages

variable {p n : Nat}

theorem le_numPages_mul (positive : 0 < p) (n : Nat) : n ≤ numPages p n * p := by
  have rest := Nat.mod_lt (n + p - 1) positive
  have whole := Nat.div_add_mod' (n + p - 1) p
  rw [numPages]
  omega

theorem numPages_mul_lt (positive : 0 < p) (n : Nat) : numPages p n * p < n + p := by
  have whole := Nat.div_mul_le_self (n + p - 1) p
  rw [numPages]
  omega

theorem numPages_eq {k : Nat} (covers : n ≤ k * p) (tight : k * p < n + p) :
    numPages p n = k := by
  have positive : 0 < p := by omega
  have upper : numPages p n * p < (k + 1) * p := by
    have lt := numPages_mul_lt positive n
    rw [Nat.succ_mul]
    omega
  have lower : k * p < (numPages p n + 1) * p := by
    have le := le_numPages_mul positive n
    rw [Nat.succ_mul]
    omega
  have := Nat.lt_of_mul_lt_mul_right upper
  have := Nat.lt_of_mul_lt_mul_right lower
  omega

theorem numPages_eq_div (positive : 0 < p) (whole : n / p * p = n) :
    numPages p n = n / p :=
  numPages_eq (Nat.le_of_eq whole.symm) (by omega)

theorem numPages_eq_div_succ (positive : 0 < p) (inside : n / p * p ≠ n) :
    numPages p n = n / p + 1 := by
  have rest := Nat.mod_lt n positive
  have whole := Nat.div_add_mod' n p
  apply numPages_eq
  · rw [Nat.succ_mul]
    omega
  · rw [Nat.succ_mul]
    omega

end Pages

namespace Extend

variable (p : Nat) (e : Extend)

/-- How many locations of the old page are used. -/
def numPart1 : Nat :=
  min e.seqLen (numPages p e.prefixLen * p) - e.prefixLen

def oldPage : List Int :=
  (List.range (e.numPart1 p)).map fun offset : Nat => e.lastLoc + 1 + offset

def locations (pages : List Nat) : List Int :=
  e.oldPage p ++ ((blocks p pages).take (e.extendLen - e.numPart1 p)).map (Nat.cast ·)

variable {p} {e} {pages : List Nat}

theorem length_oldPage : (e.oldPage p).length = e.numPart1 p := by
  rw [oldPage, length_map, length_range]

theorem locations_inside (inside : e.prefixLen + e.numPart1 p = e.seqLen) :
    e.locations p pages = e.oldPage p := by
  have none : e.extendLen - e.numPart1 p = 0 := by
    rw [extendLen]
    omega
  rw [locations, none, take_zero, map_nil, append_nil]

theorem numPart1_add (positive : 0 < p) (beyond : e.prefixLen + e.numPart1 p ≠ e.seqLen)
    (ordered : e.prefixLen ≤ e.seqLen) :
    e.prefixLen + e.numPart1 p = numPages p e.prefixLen * p ∧
      numPages p e.prefixLen * p < e.seqLen ∧ numPages p e.prefixLen ≤ e.seqLen / p := by
  have covers := le_numPages_mul positive e.prefixLen
  unfold numPart1 at beyond ⊢
  have less : numPages p e.prefixLen * p < e.seqLen := by omega
  exact ⟨by omega, less, (Nat.le_div_iff_mul_le positive).mpr (Nat.le_of_lt less)⟩

theorem numPart2_eq : e.seqLen / p * p - numPages p e.prefixLen * p =
    (e.seqLen / p - numPages p e.prefixLen) * p :=
  (Nat.sub_mul ..).symm

section

variable (positive : 0 < p)

include positive

theorem locations_whole (ordered : e.prefixLen ≤ e.seqLen)
    (beyond : e.prefixLen + e.numPart1 p ≠ e.seqLen) (ends : e.prefixLen + e.numPart1 p +
      (e.seqLen / p * p - numPages p e.prefixLen * p) = e.seqLen)
    (enough : pages.length = e.numNewPages p) :
    e.numNewPages p = e.seqLen / p - numPages p e.prefixLen ∧
    e.locations p pages = e.oldPage p ++
      (blocks p pages).map (Nat.cast ·) := by
  obtain ⟨part1, less, fewer⟩ := numPart1_add positive beyond ordered
  have isWhole : e.seqLen / p * p = e.seqLen := by omega
  have isCount : e.numNewPages p = e.seqLen / p - numPages p e.prefixLen := by
    rw [numNewPages, numPages_eq_div positive isWhole]
  refine ⟨isCount, ?_⟩
  rw [locations, take_of_length_le]
  rw [length_blocks, enough, isCount, ← numPart2_eq, extendLen]
  omega

theorem numNewPages_rest (ordered : e.prefixLen ≤ e.seqLen)
    (beyond : e.prefixLen + e.numPart1 p ≠ e.seqLen) (further : e.prefixLen + e.numPart1 p +
      (e.seqLen / p * p - numPages p e.prefixLen * p) ≠ e.seqLen) :
    e.numNewPages p = e.seqLen / p - numPages p e.prefixLen + 1 := by
  obtain ⟨part1, less, fewer⟩ := numPart1_add positive beyond ordered
  rw [numNewPages, numPages_eq_div_succ positive (by omega)]
  omega

theorem locations_rest (ordered : e.prefixLen ≤ e.seqLen)
    (beyond : e.prefixLen + e.numPart1 p ≠ e.seqLen) {front : List Nat} {last : Nat}
    (enough : front.length = e.seqLen / p - numPages p e.prefixLen) :
    e.locations p (front ++ [last]) = e.oldPage p ++ ((blocks p front).map (Nat.cast ·) ++
      (List.range (e.seqLen - e.seqLen / p * p)).map
        fun pos => ((last * p + pos : Nat) : Int)) := by
  obtain ⟨part1, less, fewer⟩ := numPart1_add positive beyond ordered
  have le := Nat.mul_le_mul_right p fewer
  have below := Nat.div_add_mod' e.seqLen p
  have rest : e.seqLen - e.seqLen / p * p ≤ p := by
    have small := Nat.mod_lt e.seqLen positive
    omega
  have taken : e.extendLen - e.numPart1 p =
      (blocks p front).length + (e.seqLen - e.seqLen / p * p) := by
    rw [length_blocks, enough, ← numPart2_eq, extendLen]
    omega
  rw [locations, taken, blocks_append, take_length_add_append, map_append,
    blocks_cons, blocks_nil, append_nil, block, ← map_take, take_range,
    Nat.min_eq_left rest, map_map]
  rfl

theorem length_locations (ordered : e.prefixLen ≤ e.seqLen)
    (enough : pages.length = e.numNewPages p) : (e.locations p pages).length = e.extendLen := by
  have covers := le_numPages_mul positive e.seqLen
  rw [locations, length_append, length_oldPage, length_map, length_take, length_blocks, enough,
    numNewPages, Nat.sub_mul, extendLen, numPart1]
  omega

end

end Extend

/-! ### What the programs store -/

section Stores

variable {start n m : Nat} {value : Nat → Int}

theorem tlStore_eq (fits : n ≤ m) : tlStore (List.range m) (· < n) (start + ·) value =
    storeAt start ((List.range n).map value) := by
  obtain ⟨more, rfl⟩ : ∃ more, m = n + more := ⟨m - n, by omega⟩
  have chosen : (range (n + more)).filter (· < n) = range n := by
    rw [range_add, filter_append, filter_eq_self.mpr (by simp),
      filter_eq_nil_iff.mpr (by simp), append_nil]
  rw [tlStore, chosen, storeAt_map_range]

theorem flatMap_tlStore {width : Nat} (positive : 0 < width) :
    ((List.range ((n + width - 1) / width)).flatMap fun block =>
      tlStore ((List.range width).map (block * width + ·)) (· < n) (start + ·) value) =
      storeAt start ((List.range n).map value) := by
  rw [← tlStore_eq (le_numPages_mul positive n), tlStore, ← blocks_range, blocks,
    filter_flatMap, map_flatMap]
  rfl

end Stores

section Batch

variable {p bsUpper first count : Nat} {batch : List Extend} {freePages : List Nat}

/-- Where the locations of a request begin. -/
def outputStart (batch : List Extend) (i : Nat) : Nat :=
  tally (batch.take i) (·.extendLen)

def pagesOf (p : Nat) (batch : List Extend) (freePages : List Nat) (i : Nat) : List Nat :=
  (freePages.drop (getNumNewPages p (batch.take i))).take ((batch.getD i default).numNewPages p)

theorem tally_take_succ {i : Nat} (member : i < batch.length) (f : Extend → Nat) :
    tally (batch.take (i + 1)) f = tally (batch.take i) f + f (batch.getD i default) := by
  rw [take_add_one, tally_append, getElem?_eq_getElem member, Option.toList_some,
    tally_cons, tally_nil, Nat.add_zero, getD_eq_getElem?_getD,
    getElem?_eq_getElem member, Option.getD_some]

/-- The lanes up to a program's own one hold the requests up to its own one. -/
theorem tlSum_eq {i : Nat} (lane : i < bsUpper) (member : i < batch.length) (f : Extend → Nat) :
    tlSum bsUpper i (fun lane => f (batch.getD lane default)) =
      tally (batch.take i) f + f (batch.getD i default) := by
  have masked : tlSum bsUpper i (fun lane => f (batch.getD lane default)) =
      tally (range (i + 1)) fun lane => f (batch.getD lane default) := by
    obtain ⟨more, rfl⟩ : ∃ more, bsUpper = i + 1 + more := ⟨bsUpper - (i + 1), by omega⟩
    rw [tlSum, range_add, tally_append]
    have behind : tally ((range more).map (i + 1 + ·))
        (fun lane => if lane ≤ i then f (batch.getD lane default) else 0) = 0 := by
      rw [tally_eq_zero_iff]
      intro lane isBehind
      obtain ⟨offset, -, rfl⟩ := mem_map.mp isBehind
      exact if_neg (by omega)
    rw [behind]
    apply tally_congr
    intro lane inside
    exact if_pos (Nat.le_of_lt_succ (mem_range.mp inside))
  rw [masked, ← tally_take_succ member]
  have lanes : (range (i + 1)).map (fun lane => batch.getD lane default) =
      batch.take (i + 1) := by
    have read : (range (i + 1)).map (fun lane => batch.getD (0 + lane) default) =
        (batch.drop 0).take (i + 1) := map_range_getD (by omega)
    simpa only [Nat.zero_add, drop_zero] using read
  rw [← lanes, tally, tally, map_map]
  rfl

theorem map_freePages (positive : 0 < p) (inside : first + count ≤ freePages.length) :
    (List.range (count * p)).map (fun offset =>
      ((freePages.getD (first + offset / p) 0 * p + offset % p : Nat) : Int)) =
      (blocks p ((freePages.drop first).take count)).map (Nat.cast ·) := by
  rw [← map_range_getD inside,
    ← map_range_mul positive count fun page => freePages.getD (first + page) 0, map_map]
  rfl

theorem take_freePages (some : count ≠ 0) (inside : first + count ≤ freePages.length) :
    (freePages.drop first).take count =
      (freePages.drop first).take (count - 1) ++ [freePages.getD (first + count - 1) 0] := by
  obtain ⟨fewer, rfl⟩ : ∃ fewer, count = fewer + 1 := ⟨count - 1, by omega⟩
  have last : first + fewer < freePages.length := by omega
  rw [Nat.add_sub_cancel, take_add_one, getElem?_drop, getD_eq_getElem?_getD, ← Nat.add_assoc,
    Nat.add_sub_cancel, getElem?_eq_getElem last]
  rfl

/-- The locations of a request in three parts: the rest of its old page, the full new pages, and
    the beginning of the last one. -/
theorem Extend.storeAt_locations (positive : 0 < p) {own : Extend}
    (ordered : own.prefixLen ≤ own.seqLen) (enough : first + own.numNewPages p ≤ freePages.length)
    (start : Nat) :
    storeAt start (own.locations p ((freePages.drop first).take (own.numNewPages p))) =
      if own.prefixLen + own.numPart1 p = own.seqLen then storeAt start (own.oldPage p)
      else
        let full := own.seqLen / p - numPages p own.prefixLen
        let part2 := storeAt (start + own.numPart1 p)
          ((blocks p ((freePages.drop first).take full)).map (Nat.cast ·))
        if own.prefixLen + own.numPart1 p + full * p = own.seqLen then
          storeAt start (own.oldPage p) ++ part2
        else storeAt start (own.oldPage p) ++ part2 ++
          storeAt (start + own.numPart1 p + full * p)
            ((List.range (own.seqLen - own.seqLen / p * p)).map fun pos =>
              ((freePages.getD (first + own.numNewPages p - 1) 0 * p + pos : Nat) : Int)) := by
  have isLength : ((freePages.drop first).take (own.numNewPages p)).length = own.numNewPages p := by
    rw [length_take, length_drop]
    omega
  split
  · next inside => rw [locations_inside inside]
  next inside =>
  dsimp only
  rw [← numPart2_eq]
  split
  · next ends =>
    obtain ⟨count, isLocations⟩ := locations_whole positive ordered inside ends isLength
    rw [isLocations, storeAt_append, length_oldPage, ← count]
  · next ends =>
    have count := numNewPages_rest positive ordered inside ends
    have front : ((freePages.drop first).take (own.numNewPages p - 1)).length =
        own.seqLen / p - numPages p own.prefixLen := by
      rw [length_take, length_drop]
      omega
    rw [take_freePages (by omega) enough, locations_rest positive ordered inside front,
      storeAt_append, storeAt_append, length_oldPage, length_map, length_blocks, front, count,
      Nat.add_sub_cancel, numPart2_eq, append_assoc]

theorem Extend.full_le_numNewPages (positive : 0 < p) (own : Extend) :
    own.seqLen / p - numPages p own.prefixLen ≤ own.numNewPages p := by
  have covers := le_numPages_mul positive own.seqLen
  rw [Nat.mul_comm] at covers
  exact Nat.sub_le_sub_right (Nat.div_le_of_le_mul covers) _

theorem allocExtendKernel_eq (positive : 0 < p) {pid : Nat} (lane : pid < bsUpper)
    (member : pid < batch.length)
    (ordered : (batch.getD pid default).prefixLen ≤ (batch.getD pid default).seqLen)
    (enough : getNumNewPages p (batch.take (pid + 1)) ≤ freePages.length) :
    allocExtendKernel p batch freePages bsUpper pid = storeAt (outputStart batch pid)
      ((batch.getD pid default).locations p (pagesOf p batch freePages pid)) := by
  have tokens := tlSum_eq lane member (·.extendLen)
  have pages := tlSum_eq lane member (·.numNewPages p)
  rw [getNumNewPages, tally_take_succ member] at enough
  simp only [allocExtendKernel, tokens, pages, Nat.add_sub_cancel, pagesOf, getNumNewPages]
  generalize batch.getD pid default = own at ordered enough ⊢
  have covers := numPages_mul_lt positive own.prefixLen
  have below := Nat.div_add_mod' own.seqLen p
  have rest := Nat.mod_lt own.seqLen positive
  have full := own.full_le_numNewPages positive
  have fits : own.numPart1 p ≤ p := by
    rw [Extend.numPart1]
    omega
  rw [Extend.storeAt_locations positive ordered enough, ← Extend.numPart1, tlStore_eq fits,
    flatMap_tlStore (by decide), Extend.numPart2_eq, map_freePages positive (by omega),
    tlStore_eq (by omega)]
  rfl

def batchLocations (p : Nat) (batch : List Extend) (freePages : List Nat) : List Int :=
  (List.range batch.length).flatMap fun i =>
    (batch.getD i default).locations p (pagesOf p batch freePages i)

structure Extendable (p : Nat) (batch : List Extend) (freePages : List Nat) : Prop where
  positive : 0 < p
  ordered : ∀ e ∈ batch, e.prefixLen ≤ e.seqLen
  enough : getNumNewPages p batch ≤ freePages.length

namespace Extendable

variable (able : Extendable p batch freePages) {i : Nat}

theorem getD_mem (member : i < batch.length) : batch.getD i default ∈ batch := by
  rw [getD_eq_getElem?_getD, getElem?_eq_getElem member]
  exact getElem_mem member

include able

theorem enough_take (i : Nat) : getNumNewPages p (batch.take i) ≤ freePages.length := by
  have parts := tally_append (batch.take i) (batch.drop i) (·.numNewPages p)
  have enough := able.enough
  rw [take_append_drop] at parts
  rw [getNumNewPages] at enough ⊢
  omega

theorem length_pagesOf (member : i < batch.length) :
    (pagesOf p batch freePages i).length = (batch.getD i default).numNewPages p := by
  have enough := able.enough_take (i + 1)
  rw [getNumNewPages, tally_take_succ member] at enough
  rw [pagesOf, length_take, length_drop, getNumNewPages]
  omega

theorem outputStart_succ (member : i < batch.length) :
    outputStart batch (i + 1) = outputStart batch i +
      ((batch.getD i default).locations p (pagesOf p batch freePages i)).length := by
  rw [Extend.length_locations able.positive (able.ordered _ (getD_mem member))
    (able.length_pagesOf member), outputStart, tally_take_succ member, outputStart]

theorem length_batchLocations :
    (batchLocations p batch freePages).length = tally batch (·.extendLen) := by
  have length := (flatMap_storeAt rfl fun i member => able.outputStart_succ member).2
  rwa [outputStart, take_length] at length

theorem kernel_stores (lanes : batch.length ≤ bsUpper) :
    (List.range batch.length).flatMap (allocExtendKernel p batch freePages bsUpper) =
      storeAt 0 (batchLocations p batch freePages) := by
  rw [batchLocations, ← (flatMap_storeAt rfl fun i member => able.outputStart_succ member).1]
  apply flatMap_congr
  intro pid inside
  have member := mem_range.mp inside
  exact allocExtendKernel_eq able.positive (Nat.lt_of_lt_of_le member lanes) member
    (able.ordered _ (getD_mem member)) (able.enough_take _)

omit able in
theorem flatMap_pagesOf (inside : count ≤ batch.length) :
    (List.range count).flatMap (pagesOf p batch freePages) =
      freePages.take (getNumNewPages p (batch.take count)) := by
  induction count with
  | zero => rfl
  | succ count ih =>
    rw [range_succ, flatMap_append, ih (by omega), flatMap_cons, flatMap_nil,
      append_nil, pagesOf, ← take_add, getNumNewPages, getNumNewPages, tally_take_succ inside]

end Extendable

namespace Extendable

variable (able : Extendable p batch freePages) {i pos : Nat} (member : i < batch.length)
  (starts : (batch.getD i default).prefixLen ≤ pos) (ends : pos < (batch.getD i default).seqLen)

include able member starts ends

end Extendable

end Batch

/-! ### The allocator -/

theorem le_nextPowerOf2 (n : Nat) : n ≤ nextPowerOf2 n := by
  rw [nextPowerOf2, bitLength]
  split
  · split
    · omega
    · have bound := Nat.lt_log2_self (n := n - 1)
      omega
  · omega

namespace Launch

theorem outIndices_storeAt (launch : Launch) (xs : List Int) :
    launch.outIndices xs.length (storeAt 0 xs) = xs :=
  map_applyStores_of_perm (launch.perm _)

end Launch

namespace Allocator

variable {a : Allocator}

@[simp] theorem pageSize_refill (a : Allocator) (needed : Nat) :
    (a.refill needed).pageSize = a.pageSize := by
  rw [refill]
  split
  · rw [mergeAndSortFree]
    split <;> rfl
  · rfl

/-- The free list when a batch is extended. -/
def freeForExtend (a : Allocator) (batch : List Extend) : Allocator :=
  a.refill (tally batch (·.extendLen) / a.pageSize + batch.length + 1)

@[simp] theorem pageSize_freeForExtend (a : Allocator) (batch : List Extend) :
    (a.freeForExtend batch).pageSize = a.pageSize :=
  pageSize_refill ..

theorem allocExtend_eq (launch : Launch) {batch : List Extend}
    (able : Extendable a.pageSize batch (a.freeForExtend batch).freePages) {count : Option Nat}
    (isCount : count.getD (getNumNewPages a.pageSize batch) = getNumNewPages a.pageSize batch) :
    a.allocExtend launch batch (tally batch (·.extendLen)) count =
      (some (batchLocations a.pageSize batch (a.freeForExtend batch).freePages),
        (a.freeForExtend batch).dropPages (getNumNewPages a.pageSize batch)) := by
  have stores := able.kernel_stores (le_nextPowerOf2 batch.length)
  have stored := launch.outIndices_storeAt
    (batchLocations a.pageSize batch (a.freeForExtend batch).freePages)
  rw [able.length_batchLocations, ← stores] at stored
  rw [allocExtend, ← freeForExtend, takePages, pageSize_freeForExtend, isCount,
    if_neg (Nat.not_lt.mpr able.enough), extendStores, pageSize_freeForExtend, stored]

end Allocator

end Engram.Alloc
