import Engram.Alloc.Extend

/-!
# What a call does to the free pages

The pages of an allocator are the free ones and the released ones, which are merged when more free
pages may be needed. Each call takes some pages and hands out their locations, or finds that there
are not enough pages and only merges (`alloc_none_of_short`).
-/

namespace Engram.Alloc

open Lib List

/-! ### Decoding is extending by one token -/

section Decode

variable {p : Nat} {e : Extend} {batch : List Extend} {freePages : List Nat}

def Extend.NextToken (e : Extend) : Prop :=
  e.prefixLen + 1 = e.seqLen

theorem Extend.NextToken.extendLen_eq (next : e.NextToken) : e.extendLen = 1 := by
  unfold NextToken at next
  rw [extendLen]
  omega

theorem Extend.NextToken.numNewPages_eq (next : e.NextToken) (paged : 2 ≤ p) :
    e.numNewPages p = if e.seqLen % p = 1 then 1 else 0 := by
  have positive : 0 < p := by omega
  have parts := Nat.div_add_mod' e.seqLen p
  have small := Nat.mod_lt e.seqLen positive
  unfold NextToken at next
  rw [numNewPages]
  by_cases first : e.seqLen % p = 1
  · rw [if_pos first, numPages_eq_div_succ positive (n := e.seqLen) (by omega),
      numPages_eq (n := e.prefixLen) (k := e.seqLen / p) (by omega) (by omega),
      Nat.add_sub_cancel_left]
  rw [if_neg first]
  by_cases whole : e.seqLen % p = 0
  · rw [numPages_eq_div positive (n := e.seqLen) (by omega),
      numPages_eq (n := e.prefixLen) (k := e.seqLen / p) (by omega) (by omega), Nat.sub_self]
  have before : numPages p e.prefixLen = e.seqLen / p + 1 := by
    apply numPages_eq
    · rw [Nat.succ_mul]
      omega
    · rw [Nat.succ_mul]
      omega
  rw [numPages_eq_div_succ positive (n := e.seqLen) (by omega), before, Nat.sub_self]

theorem getNumNewPagesDecode_le (seqLens : List Nat) :
    getNumNewPagesDecode p seqLens ≤ seqLens.length :=
  countP_le_length

theorem outputStart_decode (next : ∀ e ∈ batch, e.NextToken) {i : Nat}
    (inside : i ≤ batch.length) : outputStart batch i = i := by
  induction i with
  | zero => rfl
  | succ i ih =>
    rw [outputStart, tally_take_succ inside, ← outputStart, ih (by omega),
      (next _ (Extendable.getD_mem inside)).extendLen_eq]

theorem tally_decode (next : ∀ e ∈ batch, e.NextToken) :
    tally batch (·.extendLen) = batch.length := by
  have all := outputStart_decode next (Nat.le_refl _)
  rwa [outputStart, take_length] at all

theorem allocDecodeKernel_eq (paged : 2 ≤ p) {bsUpper pid : Nat} (lane : pid < bsUpper)
    (member : pid < batch.length) (next : ∀ e ∈ batch, e.NextToken)
    (able : Extendable p batch freePages) :
    allocDecodeKernel p batch freePages bsUpper pid = storeAt (outputStart batch pid)
      ((batch.getD pid default).locations p (pagesOf p batch freePages pid)) := by
  have positive := able.positive
  have pages := tlSum_eq lane member (·.numNewPages p)
  have enough := able.enough_take (pid + 1)
  have isNext := next _ (Extendable.getD_mem member)
  have count := isNext.numNewPages_eq paged
  have tokens := isNext.extendLen_eq
  rw [getNumNewPages, tally_take_succ member] at enough
  simp only [allocDecodeKernel, pages, pagesOf, getNumNewPages]
  rw [outputStart_decode next (Nat.le_of_lt member)]
  generalize batch.getD pid default = own at enough isNext count tokens ⊢
  generalize tally (batch.take pid) (·.numNewPages p) = first at enough ⊢
  have covers := le_numPages_mul positive own.prefixLen
  have tight := numPages_mul_lt positive own.seqLen
  have most := le_numPages_mul positive own.seqLen
  have before := numPages_mul_lt positive own.prefixLen
  unfold Extend.NextToken at isNext
  by_cases old : own.numNewPages p = 0
  · -- no new page: the token still fits in the old one
    have same := Nat.mul_le_mul_right p (Nat.sub_eq_zero_iff_le.mp old)
    have one : own.numPart1 p = 1 := by
      rw [Extend.numPart1]
      omega
    rw [if_pos old, Extend.locations_inside (by omega), Extend.oldPage, one]
    simp [storeAt]
  have one : own.numNewPages p = 1 := by
    split at count
    · exact count
    · exact absurd count old
  have more : (numPages p own.prefixLen + 1) * p ≤ numPages p own.seqLen * p := by
    apply Nat.mul_le_mul_right
    rw [Extend.numNewPages] at one
    omega
  rw [Nat.succ_mul] at more
  have none : own.numPart1 p = 0 := by
    rw [Extend.numPart1]
    omega
  have isPage : (freePages.drop first).take 1 = [freePages.getD first 0] := by
    rw [← map_range_getD (d := 0) (by omega)]
    rfl
  rw [Extend.locations, Extend.oldPage, none, one, tokens, isPage, blocks_cons, block]
  obtain ⟨offsets, rfl⟩ : ∃ offsets, p = offsets + 1 := ⟨p - 1, by omega⟩
  rw [range_succ_eq_map]
  rfl

theorem Extendable.decode_stores (paged : 2 ≤ p) (able : Extendable p batch freePages)
    (next : ∀ e ∈ batch, e.NextToken) {bsUpper : Nat} (lanes : batch.length ≤ bsUpper) :
    (List.range batch.length).flatMap (allocDecodeKernel p batch freePages bsUpper) =
      storeAt 0 (batchLocations p batch freePages) := by
  rw [batchLocations, ← (flatMap_storeAt rfl fun i member => able.outputStart_succ member).1]
  apply flatMap_congr
  intro pid inside
  have member := mem_range.mp inside
  exact allocDecodeKernel_eq paged (Nat.lt_of_lt_of_le member lanes) member next able

end Decode

/-! ### Pages -/

namespace Allocator

variable {a : Allocator}

/-- The pages that are not handed out. -/
def pages (a : Allocator) : List Nat :=
  a.freePages ++ a.releasePages

structure Tidy (a : Allocator) : Prop where
  positive : 0 < a.pageSize
  unsorted : a.needSort = false → a.releasePages = []

structure Takes (a : Allocator) (taken : List Nat) (a' : Allocator) : Prop where
  pages : a.pages.Perm (taken ++ a'.pages)
  pageSize : a'.pageSize = a.pageSize
  tidy : a'.Tidy

theorem Tidy.takesNone (tidy : a.Tidy) : a.Takes [] a :=
  ⟨List.Perm.refl _, rfl, tidy⟩

theorem mergeAndSortFree_eq (a : Allocator) :
    (a.mergeAndSortFree.freePages).Perm a.pages ∧ a.mergeAndSortFree.releasePages = [] ∧
      a.mergeAndSortFree.needSort = a.needSort := by
  rw [mergeAndSortFree]
  split
  · exact ⟨perm_insertionSort .., rfl, rfl⟩
  · next none =>
    have empty : a.releasePages = [] := length_eq_zero_iff.mp (by omega)
    rw [pages, empty, append_nil]
    exact ⟨List.Perm.refl _, rfl, rfl⟩

theorem Tidy.refill (tidy : a.Tidy) (needed : Nat) : a.Takes [] (a.refill needed) := by
  have positive : 0 < (a.refill needed).pageSize := by
    rw [pageSize_refill]
    exact tidy.positive
  refine ⟨?_, pageSize_refill .., positive, ?_⟩
  · rw [Allocator.refill]
    split
    · obtain ⟨perm, empty, -⟩ := mergeAndSortFree_eq a
      rw [pages.eq_1 a.mergeAndSortFree, empty, append_nil]
      exact perm.symm
    · exact List.Perm.refl _
  · rw [Allocator.refill]
    split
    · exact fun _ => (mergeAndSortFree_eq a).2.1
    · exact tidy.unsorted

theorem Tidy.le_refill_iff (tidy : a.Tidy) {count needed : Nat} (within : count ≤ needed) :
    count ≤ (a.refill needed).freePages.length ↔ count ≤ a.pages.length := by
  rw [Allocator.refill]
  split
  · rw [(mergeAndSortFree_eq a).1.length_eq]
  · next kept =>
    rw [pages, length_append]
    rw [Bool.and_eq_true, decide_eq_true_eq, not_and] at kept
    cases sorts : a.needSort with
    | false => rw [tidy.unsorted sorts, length_nil, Nat.add_zero]
    | true =>
      have plenty := kept sorts
      omega

theorem Tidy.dropPages (tidy : a.Tidy) (needed count : Nat) :
    a.Takes ((a.refill needed).freePages.take count) ((a.refill needed).dropPages count) := by
  have refilled := tidy.refill needed
  refine ⟨?_, refilled.pageSize, refilled.tidy.positive, refilled.tidy.unsorted⟩
  have perm := refilled.pages
  rw [pages.eq_1 (Allocator.dropPages _ _), Allocator.dropPages, ← append_assoc, take_append_drop]
  exact perm

theorem availableSize_div (tidy : a.Tidy) : a.availableSize / a.pageSize = a.pages.length := by
  rw [availableSize, Nat.mul_div_cancel _ tidy.positive, pages, length_append]

/-! ### Calls -/

theorem Tidy.alloc (tidy : a.Tidy) (needSize : Nat)
    (enough : needSize / a.pageSize ≤ a.pages.length) :
    ∃ taken a', a.alloc needSize = (some (blocks a.pageSize taken), a') ∧
      taken.length = needSize / a.pageSize ∧ a.Takes taken a' := by
  have short := (tidy.le_refill_iff (Nat.le_refl _)).mpr enough
  refine ⟨_, _, ?_, ?_, tidy.dropPages (needSize / a.pageSize) (needSize / a.pageSize)⟩
  · rw [Allocator.alloc, if_neg (Nat.not_lt.mpr short), pageSize_refill]
  · rw [length_take, Nat.min_eq_left short]

end Allocator

section Extensions

variable {p : Nat} {batch : List Extend} {freePages : List Nat}

theorem batchLocations_take (freePages : List Nat) :
    batchLocations p batch (freePages.take (getNumNewPages p batch)) =
      batchLocations p batch freePages := by
  apply flatMap_congr
  intro i inside
  have member := mem_range.mp inside
  have parts := tally_append (batch.take (i + 1)) (batch.drop (i + 1)) (·.numNewPages p)
  rw [take_append_drop, tally_take_succ member] at parts
  rw [pagesOf, pagesOf, drop_take, take_take, Nat.min_eq_left]
  rw [getNumNewPages, getNumNewPages]
  omega

/-- A batch needs at most a page for each request beside those that its tokens fill. -/
theorem getNumNewPages_le (positive : 0 < p) (batch : List Extend) :
    getNumNewPages p batch ≤ tally batch (·.extendLen) / p + batch.length := by
  induction batch with
  | nil => exact Nat.zero_le _
  | cons e batch ih =>
    have own : e.numNewPages p ≤ e.extendLen / p + 1 := by
      have tight := numPages_mul_lt positive e.seqLen
      have covers := le_numPages_mul positive e.prefixLen
      have parts := Nat.div_add_mod' e.extendLen p
      have small := Nat.mod_lt e.extendLen positive
      have less : e.numNewPages p * p < (e.extendLen / p + 2) * p := by
        rw [Extend.numNewPages, Nat.sub_mul, Nat.add_mul]
        rw [Extend.extendLen] at parts small ⊢
        omega
      exact Nat.le_of_lt_succ (Nat.lt_of_mul_lt_mul_right less)
    have sum : e.extendLen / p + tally batch (·.extendLen) / p ≤
        (e.extendLen + tally batch (·.extendLen)) / p := by
      have first := Nat.div_mul_le_self e.extendLen p
      have others := Nat.div_mul_le_self (tally batch (·.extendLen)) p
      rw [Nat.le_div_iff_mul_le positive, Nat.add_mul]
      omega
    rw [getNumNewPages, tally_cons, tally_cons, length_cons]
    rw [getNumNewPages] at ih
    omega

end Extensions

namespace Allocator

variable {a : Allocator}

theorem Tidy.allocExtend (tidy : a.Tidy) (launch : Launch) (batch : List Extend)
    (count : Option Nat) (ordered : ∀ e ∈ batch, e.prefixLen ≤ e.seqLen)
    (enough : getNumNewPages a.pageSize batch ≤ a.pages.length)
    (isCount : count.getD (getNumNewPages a.pageSize batch) = getNumNewPages a.pageSize batch) :
    ∃ taken a', a.allocExtend launch batch (tally batch (·.extendLen)) count =
        (some (batchLocations a.pageSize batch taken), a') ∧
      taken.length = getNumNewPages a.pageSize batch ∧ a.Takes taken a' := by
  have bound := getNumNewPages_le tidy.positive batch
  have short := (tidy.le_refill_iff (Nat.le_succ_of_le bound)).mpr enough
  have able : Extendable a.pageSize batch (a.freeForExtend batch).freePages :=
    ⟨tidy.positive, ordered, short⟩
  refine ⟨_, _, ?_, ?_, tidy.dropPages
    (tally batch (·.extendLen) / a.pageSize + batch.length + 1) (getNumNewPages a.pageSize batch)⟩
  · rw [allocExtend_eq launch able isCount, batchLocations_take]
    rfl
  · rw [length_take, Nat.min_eq_left short]

theorem nextToken_of_mem {batch : List (Nat × Int)} (some : ∀ request ∈ batch, 1 ≤ request.1) :
    ∀ e ∈ nextTokens batch, e.NextToken := by
  intro e member
  obtain ⟨⟨seqLen, lastLoc⟩, inBatch, rfl⟩ := mem_map.mp member
  have positive := some _ inBatch
  simp only [Extend.NextToken] at positive ⊢
  omega

theorem getNumNewPagesDecode_nextTokens {p : Nat} (paged : 2 ≤ p) (batch : List (Nat × Int)) :
    getNumNewPagesDecode p (batch.map (·.1)) = getNumNewPages p (nextTokens batch) := by
  induction batch with
  | nil => rfl
  | cons request batch ih =>
    have own : (Extend.mk (request.1 - 1) request.1 request.2).numNewPages p =
        if request.1 % p = 1 then 1 else 0 := by
      rcases Nat.eq_zero_or_pos request.1 with zero | positive
      · simp [zero, Extend.numNewPages]
      · exact Extend.NextToken.numNewPages_eq (Nat.sub_add_cancel positive) paged
    have all : getNumNewPages p (nextTokens (request :: batch)) =
        _ + getNumNewPages p (nextTokens batch) := tally_cons ..
    rw [all, own, ← ih, getNumNewPagesDecode, getNumNewPagesDecode, map_cons, countP_cons,
      Nat.add_comm]
    simp only [beq_iff_eq]

section Decode

variable {batch : List (Nat × Int)}

theorem Tidy.allocDecode (tidy : a.Tidy) (paged : 2 ≤ a.pageSize) (launch : Launch)
    (some : ∀ request ∈ batch, 1 ≤ request.1)
    (enough : getNumNewPages a.pageSize (nextTokens batch) ≤ a.pages.length) :
    ∃ taken a', a.allocDecode launch batch =
        (Option.some (batchLocations a.pageSize (nextTokens batch) taken), a') ∧
      taken.length = getNumNewPages a.pageSize (nextTokens batch) ∧ a.Takes taken a' := by
  have next := nextToken_of_mem some
  have count := getNumNewPagesDecode_nextTokens paged batch
  have bound := getNumNewPagesDecode_le (p := a.pageSize) (batch.map (·.1))
  rw [length_map, count] at bound
  have short := (tidy.le_refill_iff bound).mpr enough
  have able : Extendable a.pageSize (nextTokens batch) (a.refill batch.length).freePages :=
    ⟨tidy.positive, fun e member => Nat.le.intro (next e member), short⟩
  have length : (nextTokens batch).length = batch.length := length_map ..
  refine ⟨_, _, ?_, ?_, tidy.dropPages batch.length (getNumNewPages a.pageSize (nextTokens batch))⟩
  · have stored := launch.outIndices_storeAt
      (batchLocations a.pageSize (nextTokens batch) (a.refill batch.length).freePages)
    rw [able.length_batchLocations, tally_decode next, length,
      ← able.decode_stores paged next (le_nextPowerOf2 _)] at stored
    rw [Allocator.allocDecode, takePages, pageSize_refill, count, if_neg (Nat.not_lt.mpr short),
      batchLocations_take, ← stored, decodeStores, pageSize_refill]
  · rw [length_take, Nat.min_eq_left short]

theorem Tidy.allocDecode_none (tidy : a.Tidy) (paged : 2 ≤ a.pageSize) (launch : Launch)
    (batch : List (Nat × Int))
    (short : a.pages.length < getNumNewPages a.pageSize (nextTokens batch)) :
    a.allocDecode launch batch = (none, a.refill batch.length) := by
  have count := getNumNewPagesDecode_nextTokens paged batch
  have bound := getNumNewPagesDecode_le (p := a.pageSize) (batch.map (·.1))
  rw [length_map, count] at bound
  have few := (tidy.le_refill_iff bound).not.mpr (Nat.not_le.mpr short)
  rw [Allocator.allocDecode, takePages, pageSize_refill, count, if_pos (Nat.not_le.mp few)]

end Decode

theorem Tidy.release (tidy : a.Tidy) (sorts : a.needSort = true) {back released : List Nat}
    (perm : released.Perm (back ++ a.releasePages)) :
    ({ a with releasePages := released } : Allocator).pages.Perm (back ++ a.pages) ∧
      ({ a with releasePages := released } : Allocator).Tidy := by
  refine ⟨?_, tidy.positive, fun unsorted => absurd (sorts.symm.trans unsorted) (by decide)⟩
  rw [pages, pages, ← append_assoc]
  exact (perm.append_left _).trans (by
    rw [← append_assoc]
    exact perm_append_comm.append_right _)

theorem Tidy.putBack (tidy : a.Tidy) {back free : List Nat}
    (perm : free.Perm (back ++ a.freePages)) :
    ({ a with freePages := free } : Allocator).pages.Perm (back ++ a.pages) ∧
      ({ a with freePages := free } : Allocator).Tidy := by
  refine ⟨?_, tidy.positive, tidy.unsorted⟩
  rw [pages, pages, ← append_assoc]
  exact perm.append_right _

theorem Tidy.free (tidy : a.Tidy) {freeIndex : List Nat}
    (distinct : a.pageSize = 1 → freeIndex.Nodup) :
    (a.free freeIndex).pageSize = a.pageSize ∧
      (a.free freeIndex).pages.Perm ((freeIndex.map (· / a.pageSize)).dedup ++ a.pages) ∧
      (a.free freeIndex).Tidy := by
  by_cases none : freeIndex = []
  · subst none
    exact ⟨rfl, List.Perm.refl _, tidy⟩
  have filled : ¬freeIndex.isEmpty = true := by simpa using none
  rw [Allocator.free, if_neg filled]
  by_cases single : a.pageSize = 1
  · have same : (freeIndex.map (· / a.pageSize)).dedup = freeIndex := by
      simp only [single, Nat.div_one, map_id']
      exact (distinct single).dedup
    rw [if_pos single, same]
    split
    · next sorts => exact ⟨rfl, tidy.release sorts perm_append_comm⟩
    · exact ⟨rfl, tidy.putBack perm_append_comm⟩
  rw [if_neg single]
  have perm := (perm_insertionSort (· ≤ ·) (freeIndex.map (· / a.pageSize)).dedup)
  split
  · next sorts => exact ⟨rfl, tidy.release sorts (perm.append_right _)⟩
  · exact ⟨rfl, tidy.putBack (perm.append_right _)⟩

/-- A call gets nothing only if there are not enough pages at all, and no page is lost. -/
theorem Tidy.takePages_none (tidy : a.Tidy) {count needed : Nat} (within : count ≤ needed)
    {outIndices : List Int} {a' : Allocator}
    (failed : (a.refill needed).takePages count outIndices = (none, a')) :
    a.pages.length < count ∧ a'.pages.Perm a.pages := by
  rw [takePages] at failed
  split at failed
  · next few =>
    cases failed
    exact ⟨Nat.not_le.mp ((tidy.le_refill_iff within).not.mp (Nat.not_le.mpr few)),
      (tidy.refill needed).pages.symm⟩
  · cases failed

theorem Tidy.takePages (tidy : a.Tidy) (needed count : Nat) (outIndices : List Int) :
    ∃ taken, a.Takes taken ((a.refill needed).takePages count outIndices).2 := by
  rw [Allocator.takePages]
  split
  · exact ⟨_, tidy.refill needed⟩
  · exact ⟨_, tidy.dropPages needed count⟩

end Allocator

/-! ### Free groups -/

structure PagedAllocator where
  allocator : Allocator
  isNotInFreeGroup : Bool := true
  freeGroup : List (List Nat) := []

namespace PagedAllocator

def clear (pageSize numPages : Nat) (needSort : Bool) : PagedAllocator where
  allocator := .clear pageSize numPages needSort

def free (s : PagedAllocator) (freeIndex : List Nat) : PagedAllocator :=
  if freeIndex.isEmpty then s
  else if s.isNotInFreeGroup then { s with allocator := s.allocator.free freeIndex }
  else { s with freeGroup := s.freeGroup ++ [freeIndex] }

def freeGroupBegin (s : PagedAllocator) : PagedAllocator :=
  { s with isNotInFreeGroup := false, freeGroup := [] }

def freeGroupEnd (s : PagedAllocator) : PagedAllocator :=
  let s := { s with isNotInFreeGroup := true }
  if s.freeGroup.isEmpty then s else s.free s.freeGroup.flatten

inductive Call where
  | alloc (needSize : Nat)
  | allocExtend (launch : Launch) (batch : List Extend) (extendNumTokens : Nat)
      (numNewPages : Option Nat)
  | allocDecode (launch : Launch) (batch : List (Nat × Int))
  | free (freeIndex : List Nat)
  | freeGroupBegin
  | freeGroupEnd

def step (s : PagedAllocator) : Call → PagedAllocator
  | .alloc needSize => { s with allocator := (s.allocator.alloc needSize).2 }
  | .allocExtend launch batch extendNumTokens numNewPages =>
    { s with allocator := (s.allocator.allocExtend launch batch extendNumTokens numNewPages).2 }
  | .allocDecode launch batch => { s with allocator := (s.allocator.allocDecode launch batch).2 }
  | .free freeIndex => s.free freeIndex
  | .freeGroupBegin => s.freeGroupBegin
  | .freeGroupEnd => s.freeGroupEnd

def Tidy (p : Nat) (s : PagedAllocator) : Prop :=
  s.allocator.Tidy ∧ s.allocator.pageSize = p

variable {p : Nat} {s : PagedAllocator}

theorem Tidy.of_takes {taken : List Nat} {a : Allocator} (tidy : s.Tidy p)
    (takes : s.allocator.Takes taken a) : ({ s with allocator := a } : PagedAllocator).Tidy p :=
  ⟨takes.tidy, takes.pageSize.trans tidy.2⟩

theorem Tidy.free (paged : 2 ≤ p) (tidy : s.Tidy p) (freeIndex : List Nat) :
    (s.free freeIndex).Tidy p := by
  have many : s.allocator.pageSize ≠ 1 := by
    rw [tidy.2]
    omega
  have freed : (s.allocator.free freeIndex).pageSize = _ ∧ _ :=
    tidy.1.free fun single => absurd single many
  rw [PagedAllocator.free]
  split_ifs
  · exact tidy
  · exact ⟨freed.2.2, freed.1.trans tidy.2⟩
  · exact tidy

theorem Tidy.step (paged : 2 ≤ p) (tidy : s.Tidy p) (call : Call) : (s.step call).Tidy p := by
  cases call with
  | alloc needSize =>
    rw [PagedAllocator.step, Allocator.alloc]
    split
    · exact tidy.of_takes (tidy.1.refill _)
    · exact tidy.of_takes (tidy.1.dropPages _ _)
  | allocExtend launch batch extendNumTokens numNewPages =>
    exact tidy.of_takes (tidy.1.takePages _ _ _).choose_spec
  | allocDecode launch batch => exact tidy.of_takes (tidy.1.takePages _ _ _).choose_spec
  | free freeIndex => exact tidy.free paged freeIndex
  | freeGroupBegin => exact tidy
  | freeGroupEnd =>
    rw [PagedAllocator.step, freeGroupEnd]
    split
    · exact tidy
    · exact Tidy.free paged (s := { s with isNotInFreeGroup := true }) tidy _

/-- After any calls, an extension or a decode gets nothing only if it needs more new pages than
    are free or released, and then these pages stay what they were. -/
theorem alloc_none_of_short (paged : 2 ≤ p) (numPages : Nat) (needSort : Bool) (calls : List Call) :
    let a := (calls.foldl step (.clear p numPages needSort)).allocator
    (∀ launch batch numNewPages a', (∀ count ∈ numNewPages, count = getNumNewPages p batch) →
      a.allocExtend launch batch (tally batch (·.extendLen)) numNewPages = (none, a') →
        a.pages.length < getNumNewPages p batch ∧ a'.pages.Perm a.pages) ∧
    ∀ launch batch a', a.allocDecode launch batch = (none, a') →
      a.pages.length < getNumNewPages p (Allocator.nextTokens batch) ∧
        a'.pages.Perm a.pages := by
  have reached : (calls.foldl step (.clear p numPages needSort)).Tidy p := by
    refine List.foldlRecOn calls step ⟨⟨?_, fun _ => rfl⟩, rfl⟩
      fun s tidy call _ => Tidy.step paged tidy call
    exact Nat.lt_of_lt_of_le Nat.two_pos paged
  obtain ⟨tidy, pageSize⟩ := reached
  refine ⟨fun launch batch numNewPages a' given failed => ?_, fun launch batch a' failed => ?_⟩
  · have count : numNewPages.getD (getNumNewPages p batch) = getNumNewPages p batch := by
      cases numNewPages with
      | none => rfl
      | some count => exact given count rfl
    have bound := getNumNewPages_le tidy.positive batch
    rw [Allocator.allocExtend, Allocator.pageSize_refill, pageSize, count] at failed
    rw [pageSize] at bound
    exact tidy.takePages_none (Nat.le_succ_of_le bound) failed
  · have bound := getNumNewPagesDecode_le (p := p) (batch.map (·.1))
    rw [length_map] at bound
    rw [Allocator.allocDecode, Allocator.pageSize_refill, pageSize] at failed
    have short := tidy.takePages_none bound failed
    rwa [Allocator.getNumNewPagesDecode_nextTokens paged] at short

/-- The only page is in an open free group. -/
theorem alloc_none_in_free_group :
    let a := ([Call.alloc 2, .freeGroupBegin, .free [2, 3]].foldl step (.clear 2 1 true)).allocator
    (a.allocDecode .sequential [(1, -1)]).1 = none ∧ a.pages.length < 1 :=
  ⟨by decide, ((alloc_none_of_short (Nat.le_refl 2) 1 true _).2 .sequential [(1, -1)] _ rfl).1⟩

end PagedAllocator

end Engram.Alloc
