import Engram.Alloc.Swa
import Engram.Lib.Links

/-!
# Conservation of the pages of both pools

Extending a batch in both pools gives each request locations that correspond: the rest of its old
page is behind the rest of it in the other pool, and its new pages are linked in the order in
which they are taken. So the mapping follows a link of pages, and every page of the other pool is
either free or behind a page of the full one (`swa_allocator_conserved`).
-/

namespace Engram.Alloc

open Lib List
open Lib.Transition

/-! ### Extending in two pools -/

section Corresponding

variable {p : Nat} {link : Nat → Nat}

theorem succ_mod_of_ne (positive : 0 < p) {n : Nat} (inside : (n + 1) % p ≠ 0) :
    (n + 1) % p = n % p + 1 := by
  have parts := Nat.div_add_mod' n p
  have small := Nat.mod_lt n positive
  by_cases last : n % p + 1 = p
  · have whole : n + 1 = (n / p + 1) * p := by
      rw [Nat.succ_mul]
      omega
    rw [whole, Nat.mul_mod_left] at inside
    exact absurd rfl inside
  · have isNext : n + 1 = n / p * p + (n % p + 1) := by omega
    rw [isNext, Nat.mul_add_mod_self_right, Nat.mod_eq_of_lt (by omega)]

theorem Extend.mod_add_numPart1 (positive : 0 < p) (e : Extend) :
    (e.prefixLen % p = 0 → e.numPart1 p = 0) ∧ e.prefixLen % p + e.numPart1 p ≤ p := by
  have parts := Nat.div_add_mod' e.prefixLen p
  have small := Nat.mod_lt e.prefixLen positive
  by_cases whole : e.prefixLen / p * p = e.prefixLen
  · have none : e.numPart1 p = 0 := by
      rw [numPart1, numPages_eq_div positive whole]
      omega
    exact ⟨fun _ => none, by omega⟩
  · have most : e.numPart1 p ≤ p - e.prefixLen % p := by
      rw [numPart1, numPages_eq_div_succ positive whole, Nat.succ_mul]
      omega
    exact ⟨by omega, by omega⟩

def Extend.GoesOn (p : Nat) (e : Extend) : Prop :=
  e.prefixLen % p ≠ 0 → 0 ≤ e.lastLoc ∧ (e.lastLoc.toNat + 1) % p = e.prefixLen % p

theorem Extend.GoesOn.old {e : Extend} (goesOn : e.GoesOn p) (positive : 0 < p) {k : Nat}
    (inside : k < e.numPart1 p) :
    e.prefixLen % p ≠ 0 ∧ ∃ last, e.lastLoc = (last : Nat) ∧ (last + 1 + k) / p = last / p ∧
      (last + 1 + k) % p = last % p + 1 + k := by
  obtain ⟨whole, most⟩ := e.mod_add_numPart1 positive
  have onPage : e.prefixLen % p ≠ 0 := fun none => absurd (whole none) (by omega)
  obtain ⟨natural, place⟩ := goesOn onPage
  obtain ⟨last, isNat⟩ := Int.eq_ofNat_of_zero_le natural
  rw [isNat, Int.toNat_natCast] at place
  -- the location after the last one has the place that the prefix ends with
  have next : last % p + 1 = e.prefixLen % p := by
    rw [← place, succ_mod_of_ne positive]
    rw [place]
    exact onPage
  have parts := Nat.div_add_mod' last p
  have isLocation : last + 1 + k = (last % p + 1 + k) + last / p * p := by omega
  refine ⟨onPage, last, isNat, ?_, ?_⟩
  · rw [isLocation, Nat.add_mul_div_right _ _ positive, Nat.div_eq_of_lt (by omega), Nat.zero_add]
  · rw [isLocation, Nat.add_mul_mod_self_right, Nat.mod_eq_of_lt (by omega)]

/-- The location behind a location. -/
def linkedLoc (p : Nat) (link : Nat → Nat) (loc : Int) : Int :=
  linkedIndex p link loc.toNat

/-- A request with the last location in its own pool, and with the one behind it. -/
structure Extend.Corresponds (p : Nat) (link : Nat → Nat) (e e' : Extend) : Prop where
  prefixLen : e'.prefixLen = e.prefixLen
  seqLen : e'.seqLen = e.seqLen
  goesOn : e.GoesOn p
  behind : e.prefixLen % p ≠ 0 → e'.lastLoc = linkedLoc p link e.lastLoc

namespace Extend.Corresponds

variable {e e' : Extend}

theorem old (same : e.Corresponds p link e') (positive : 0 < p) {k : Nat}
    (inside : k < e.numPart1 p) :
    e'.lastLoc + 1 + k = linkedLoc p link (e.lastLoc + 1 + k) := by
  obtain ⟨onPage, last, isLast, samePage, offset⟩ := same.goesOn.old positive inside
  have toNat : ((last : Int) + 1 + k).toNat = last + 1 + k := by omega
  rw [same.behind onPage, isLast, linkedLoc, linkedLoc, toNat, Int.toNat_natCast, linkedIndex,
    linkedIndex, samePage]
  omega

theorem locations (same : e.Corresponds p link e') (positive : 0 < p) (pages : List Nat) :
    e'.locations p (pages.map link) = (e.locations p pages).map (linkedLoc p link) := by
  have part1 : e'.numPart1 p = e.numPart1 p := by
    rw [numPart1, numPart1, same.prefixLen, same.seqLen]
  rw [Extend.locations, Extend.locations, map_append, oldPage, oldPage, part1, extendLen,
    same.prefixLen, same.seqLen, blocks_map positive, ← map_take, map_map, map_map, map_map]
  congr 1
  apply map_congr_left
  intro k inside
  exact same.old positive (mem_range.mp inside)

end Extend.Corresponds

theorem Extend.Corresponds.numNewPages {e e' : Extend} (same : e.Corresponds p link e') :
    e'.numNewPages p = e.numNewPages p := by
  rw [Extend.numNewPages, Extend.numNewPages, same.prefixLen, same.seqLen]

section Batch

variable {batch : List Extend} {other : Extend → Extend}
  (same : ∀ e ∈ batch, e.Corresponds p link (other e))

include same

theorem getNumNewPages_map : getNumNewPages p (batch.map other) = getNumNewPages p batch := by
  rw [getNumNewPages, tally, map_map]
  exact tally_congr fun e member => (same e member).numNewPages

theorem batchLocations_map (positive : 0 < p) (pages : List Nat) :
    batchLocations p (batch.map other) (pages.map link) =
      (batchLocations p batch pages).map (linkedLoc p link) := by
  rw [batchLocations, batchLocations, length_map, map_flatMap]
  apply flatMap_congr
  intro i inRange
  have member := mem_range.mp inRange
  have inBatch := Extendable.getD_mem member
  have isOther : (batch.map other).getD i default = other (batch.getD i default) := by
    rw [getD_eq_getElem?_getD, getElem?_map, getD_eq_getElem?_getD,
      getElem?_eq_getElem member]
    rfl
  have before : getNumNewPages p ((batch.take i).map other) = getNumNewPages p (batch.take i) :=
    getNumNewPages_map fun e inTake => same e (mem_of_mem_take inTake)
  have isPages : pagesOf p (batch.map other) (pages.map link) i =
      (pagesOf p batch pages i).map link := by
    rw [pagesOf, pagesOf, isOther, (same _ inBatch).numNewPages, ← map_take, before,
      ← map_drop, ← map_take]
  rw [isOther, isPages, (same _ inBatch).locations positive]

end Batch

end Corresponding

/-! ### Indices of a batch -/

section Indices

variable {p : Nat} {batch : List Extend} {taken : List Nat}

def batchIndices (p : Nat) (batch : List Extend) (taken : List Nat) : List Nat :=
  (batchLocations p batch taken).map Int.toNat

/-- Each of them is in a page that was taken, or in the old page of its request. -/
theorem mem_batchIndices (positive : 0 < p) (goesOn : ∀ e ∈ batch, e.GoesOn p) {i : Nat}
    (member : i ∈ batchIndices p batch taken) :
    i / p ∈ taken ∨ ∃ e ∈ batch, e.prefixLen % p ≠ 0 ∧ e.lastLoc.toNat / p = i / p := by
  obtain ⟨loc, inBatch, rfl⟩ := mem_map.mp member
  obtain ⟨k, inRange, inRequest⟩ := mem_flatMap.mp inBatch
  have isRequest := Extendable.getD_mem (mem_range.mp inRange)
  rcases mem_append.mp inRequest with old | new
  · obtain ⟨offset, inside, rfl⟩ := mem_map.mp old
    obtain ⟨onPage, last, isLast, samePage, -⟩ :=
      (goesOn _ isRequest).old positive (mem_range.mp inside)
    have toNat : ((last : Int) + 1 + offset).toNat = last + 1 + offset := by omega
    refine .inr ⟨_, isRequest, onPage, ?_⟩
    rw [isLast, toNat, Int.toNat_natCast, samePage]
  · obtain ⟨index, inPages, rfl⟩ := mem_map.mp new
    have inBlocks := mem_of_mem_take inPages
    rw [← count_pos_iff, count_blocks positive, count_pos_iff] at inBlocks
    exact .inl (mem_of_mem_drop (mem_of_mem_take inBlocks))

theorem Extend.first_mem_locations (positive : 0 < p) {e : Extend} {pages : List Nat}
    (exactly : pages.length = e.numNewPages p) {page : Nat} (member : page ∈ pages) :
    ((page * p : Nat) : Int) ∈ e.locations p pages := by
  obtain ⟨k, inside, isPage⟩ := getElem_of_mem member
  have tight := numPages_mul_lt positive e.seqLen
  have covers := le_numPages_mul positive e.prefixLen
  have reached : (numPages p e.prefixLen + k + 1) * p ≤ numPages p e.seqLen * p := by
    apply Nat.mul_le_mul_right
    rw [Extend.numNewPages] at exactly
    omega
  rw [Nat.succ_mul, Nat.add_mul] at reached
  have isPart1 : e.numPart1 p = numPages p e.prefixLen * p - e.prefixLen := by
    rw [numPart1]
    omega
  refine mem_append_right _ (mem_map.mpr ⟨page * p, ?_, rfl⟩)
  refine mem_iff_getElem?.mpr ⟨k * p, ?_⟩
  rw [getElem?_take, if_pos (by rw [extendLen]; omega), getElem?_blocks positive,
    Nat.mul_div_cancel _ positive, Nat.mul_mod_left, getElem?_eq_getElem inside, isPage]
  rfl

theorem exists_mem_batchIndices (able : Extendable p batch taken)
    (exactly : taken.length = getNumNewPages p batch) {page : Nat} (member : page ∈ taken) :
    ∃ i ∈ batchIndices p batch taken, i / p = page := by
  have all : (range batch.length).flatMap (pagesOf p batch taken) = taken := by
    rw [Extendable.flatMap_pagesOf (Nat.le_refl _), take_length, ← exactly, take_length]
  rw [← all] at member
  obtain ⟨k, inRange, inPages⟩ := mem_flatMap.mp member
  refine ⟨page * p, ?_, Nat.mul_div_cancel _ able.positive⟩
  refine mem_map.mpr ⟨(page * p : Nat), ?_, Int.toNat_natCast _⟩
  exact mem_flatMap.mpr ⟨k, inRange, Extend.first_mem_locations able.positive
    (able.length_pagesOf (mem_range.mp inRange)) inPages⟩

end Indices

/-! ### Steps of the allocator -/

section Extended

variable {p numFull numSwa : Nat} {fullFree fullFree' swaFree swaFree' held : List Nat}
  {mapping : Nat → Int} {link : Nat → Nat}
  {batch : List Extend} {other : Extend → Extend} {taken partners : List Nat}

theorem extend_linked (linked : Linked p numFull numSwa fullFree swaFree held mapping link)
    (positive : 0 < p) (full : fullFree.Perm (taken ++ fullFree'))
    (swa : swaFree.Perm (partners ++ swaFree')) (ordered : ∀ e ∈ batch, e.prefixLen ≤ e.seqLen)
    (exactly : taken.length = getNumNewPages p batch) (length : taken.length = partners.length)
    (goesOn : ∀ e ∈ batch, e.GoesOn p)
    (sameLens : ∀ e ∈ batch, (other e).prefixLen = e.prefixLen ∧ (other e).seqLen = e.seqLen)
    (backed : ∀ e ∈ batch, e.prefixLen % p ≠ 0 → mapping e.lastLoc.toNat ≠ 0 ∧
      (other e).lastLoc = mapping e.lastLoc.toNat) :
    Linked p numFull numSwa fullFree' swaFree' (held ++ batchIndices p batch taken)
      (applyStores mapping ((batchIndices p batch taken).zip
        (batchLocations p (batch.map other) partners)))
      (applyStores link (taken.zip partners)) := by
  have distinct : taken.Nodup :=
    (nodup_append.mp (full.nodup_iff.mp linked.frontNodup)).1
  have values : taken.map (applyStores link (taken.zip partners)) = partners :=
    map_applyStores_zip distinct length
  -- taken pages were free, so no link is overwritten
  have keeps {page : Nat} (has : link page ≠ 0) :
      applyStores link (taken.zip partners) page = link page := by
    apply applyStores_of_notMem
    rw [map_fst_zip (Nat.le_of_eq length)]
    exact fun isTaken =>
      has (linked.link_of_free (full.mem_iff.mpr (mem_append_left _ isTaken)))
  have same : ∀ e ∈ batch,
      e.Corresponds p (applyStores link (taken.zip partners)) (other e) := by
    intro e member
    refine ⟨(sameLens e member).1, (sameLens e member).2, goesOn e member, ?_⟩
    intro onPage
    obtain ⟨isMapped, isOther⟩ := backed e member onPage
    obtain ⟨-, has, isIndex⟩ := linked.mapped _ isMapped
    rw [isOther, isIndex, linkedLoc, linkedIndex, linkedIndex, keeps has]
  have able : Extendable p batch taken := ⟨positive, ordered, Nat.le_of_eq exactly.symm⟩
  have isSwa : batchLocations p (batch.map other) partners =
      (batchLocations p batch taken).map
        (linkedLoc p (applyStores link (taken.zip partners))) := by
    have mapped := batchLocations_map same positive taken
    rwa [values] at mapped
  -- an index that is handed out is in a new page or in the old page of its request
  have old {i : Nat} (member : i ∈ batchIndices p batch taken) :
      i / p ∈ taken ∨ ∃ last ∈ held, last / p = i / p ∧ link (i / p) ≠ 0 := by
    rcases mem_batchIndices positive goesOn member with isTaken | ⟨e, inBatch, onPage, samePage⟩
    · exact .inl isTaken
    · obtain ⟨isHeld, has, -⟩ := linked.mapped _ (backed e inBatch onPage).1
      exact .inr ⟨_, isHeld, samePage, samePage ▸ has⟩
  refine linked.grow positive full swa (fun _ isTaken => isTaken) distinct length ?_
    (fun page isTaken => exists_mem_batchIndices able exactly isTaken) (fun _ isNew => isNew) ?_
    (fun page isTaken => exists_mem_batchIndices able exactly isTaken) ?_
  · intro i member
    refine (old member).imp_right ?_
    rintro ⟨last, isHeld, samePage, _⟩
    exact ⟨last, isHeld, samePage⟩
  · intro i member
    refine (old member).imp_right ?_
    rintro ⟨_, _, _, has⟩
    exact has
  · intro i
    have stored : (batchLocations p batch taken).map
        (linkedLoc p (applyStores link (taken.zip partners))) =
        (batchIndices p batch taken).map fun i =>
          (linkedIndex p (applyStores link (taken.zip partners)) i : Int) := by
      rw [batchIndices, map_map]
      rfl
    rw [isSwa, stored, applyStores_zip_map]

end Extended

/-! ### The tail of a request -/

section Tail

variable {p : Nat} {e : Extend} {swaTailLen : Nat} {taken : List Nat}

theorem batchLocations_singleton (exactly : taken.length = e.numNewPages p) :
    batchLocations p [e] taken = e.locations p taken := by
  have all : pagesOf p [e] taken 0 = taken := by
    exact take_of_length_le (Nat.le_of_eq exactly)
  have one : batchLocations p [e] taken = e.locations p (pagesOf p [e] taken 0) ++ [] := rfl
  rw [one, all, append_nil]

theorem getNumNewPages_singleton : getNumNewPages p [e] = e.numNewPages p := by
  rw [getNumNewPages, tally_cons, tally_nil, Nat.add_zero]

theorem numPages_zero (positive : 0 < p) : numPages p 0 = 0 :=
  numPages_eq (Nat.zero_le _) (by omega)

theorem locations_of_zero (positive : 0 < p) (pages : List Nat) (lastLoc : Int) :
    (⟨0, swaTailLen, lastLoc⟩ : Extend).locations p pages =
      ((blocks p pages).take swaTailLen).map (Nat.cast ·) := by
  have none : (⟨0, swaTailLen, lastLoc⟩ : Extend).numPart1 p = 0 := by
    simp only [Extend.numPart1, numPages_zero positive]
    omega
  rw [Extend.locations, Extend.oldPage, none]
  rfl

def tailPages (p : Nat) (swaTailLen : Nat) (taken : List Nat) : List Nat :=
  taken.drop (taken.length - numPages p swaTailLen)

theorem drop_locations (positive : 0 < p) (exactly : taken.length = e.numNewPages p)
    (some : swaTailLen ≠ 0) (inside : swaTailLen ≤ e.extendLen)
    (aligned : (e.seqLen - swaTailLen) % p = 0) :
    (tailPages p swaTailLen taken).length = numPages p swaTailLen ∧
    (e.locations p taken).drop (e.extendLen - swaTailLen) =
      ((blocks p (tailPages p swaTailLen taken)).take swaTailLen).map (Nat.cast ·) := by
  obtain ⟨first, isFirst⟩ := Nat.dvd_of_mod_eq_zero aligned
  rw [Nat.mul_comm] at isFirst
  have covers := le_numPages_mul positive e.prefixLen
  have tight := numPages_mul_lt positive e.prefixLen
  rw [Extend.extendLen] at inside
  -- the tail starts with a page, behind the old one
  have before : numPages p e.prefixLen ≤ first := by
    have less : numPages p e.prefixLen * p < (first + 1) * p := by
      rw [Nat.succ_mul]
      omega
    exact Nat.le_of_lt_succ (Nat.lt_of_mul_lt_mul_right less)
  have least := Nat.mul_le_mul_right p before
  have pages : numPages p e.seqLen = first + numPages p swaTailLen := by
    have coversTail := le_numPages_mul positive swaTailLen
    have tightTail := numPages_mul_lt positive swaTailLen
    apply numPages_eq
    · rw [Nat.add_mul]
      omega
    · rw [Nat.add_mul]
      omega
  have skipped : taken.length - numPages p swaTailLen = first - numPages p e.prefixLen := by
    rw [exactly, Extend.numNewPages, pages]
    omega
  have isPart1 : e.numPart1 p = numPages p e.prefixLen * p - e.prefixLen := by
    rw [Extend.numPart1]
    omega
  have offset : e.extendLen - swaTailLen =
      (e.oldPage p).length + (first - numPages p e.prefixLen) * p := by
    rw [Extend.length_oldPage, Nat.sub_mul, Extend.extendLen]
    omega
  have isTail : e.extendLen - e.numPart1 p - (first - numPages p e.prefixLen) * p =
      swaTailLen := by
    rw [Nat.sub_mul, Extend.extendLen]
    omega
  refine ⟨?_, ?_⟩
  · rw [tailPages, length_drop, skipped, exactly, Extend.numNewPages, pages]
    omega
  · rw [offset, Extend.locations, drop_length_add_append, ← map_drop, drop_take,
      drop_blocks, isTail, tailPages, skipped]

end Tail

section Extended

variable {p numFull numSwa : Nat} {fullFree fullFree' swaFree swaFree' held : List Nat}
  {mapping : Nat → Int} {link : Nat → Nat} {e : Extend} {swaTailLen : Nat}
  {taken partners : List Nat}

/-- The pages of a request from the beginning are its indices when a page is one index. -/
theorem locations_of_single (pages : List Nat) :
    batchLocations 1 [⟨0, pages.length, -1⟩] pages = pages.map (Nat.cast ·) := by
  rw [batchLocations_singleton, locations_of_zero Nat.one_pos, blocks_one, take_length]
  simp [Extend.numNewPages, numPages]

theorem alloc_linked (linked : Linked 1 numFull numSwa fullFree swaFree held mapping link)
    (full : fullFree.Perm (taken ++ fullFree')) (swa : swaFree.Perm (partners ++ swaFree'))
    (length : taken.length = partners.length) :
    Linked 1 numFull numSwa fullFree' swaFree' (held ++ taken)
      (applyStores mapping (taken.zip (partners.map Nat.cast)))
      (applyStores link (taken.zip partners)) := by
  have extended : Linked 1 numFull numSwa fullFree' swaFree'
      (held ++ batchIndices 1 [⟨0, taken.length, -1⟩] taken)
      (applyStores mapping ((batchIndices 1 [⟨0, taken.length, -1⟩] taken).zip
        (batchLocations 1 ([⟨0, taken.length, -1⟩].map id) partners))) _ :=
    extend_linked linked Nat.one_pos full swa (by simp)
      (by simp [getNumNewPages_singleton, Extend.numNewPages, numPages]) length
      (by simp [Extend.GoesOn]) (by simp) (by simp)
  have isTaken : batchIndices 1 [⟨0, taken.length, -1⟩] taken = taken := by
    rw [batchIndices, locations_of_single, map_map]
    exact map_id _
  rwa [isTaken, map_id, length, locations_of_single] at extended

/-- The indices that one request is handed are in the pages that were taken, each of which is
    used, and in the page of its last location. -/
theorem request_indices (positive : 0 < p) (ordered : e.prefixLen ≤ e.seqLen)
    (goesOn : e.GoesOn p) (isHeld : e.prefixLen % p ≠ 0 → e.lastLoc.toNat ∈ held)
    (exactly : taken.length = e.numNewPages p) :
    (∀ i ∈ (e.locations p taken).map Int.toNat,
      i / p ∈ taken ∨ ∃ j ∈ held, j / p = i / p) ∧
    ∀ page ∈ taken, ∃ i ∈ (e.locations p taken).map Int.toNat, i / p = page := by
  have able : Extendable p [e] taken :=
    ⟨positive, by simpa using ordered, by rw [getNumNewPages_singleton]; omega⟩
  have isBatch : (e.locations p taken).map Int.toNat = batchIndices p [e] taken := by
    rw [batchIndices, batchLocations_singleton exactly]
  rw [isBatch]
  constructor
  · intro i member
    rcases mem_batchIndices positive (by simpa using goesOn) member with
      isTaken | ⟨other, isOnly, onPage, samePage⟩
    · exact .inl isTaken
    · obtain rfl := mem_singleton.mp isOnly
      exact .inr ⟨_, isHeld onPage, samePage⟩
  · intro page isTaken
    exact exists_mem_batchIndices able (by rw [getNumNewPages_singleton, exactly]) isTaken

theorem tail_linked (linked : Linked p numFull numSwa fullFree swaFree held mapping link)
    (positive : 0 < p) (full : fullFree.Perm (taken ++ fullFree'))
    (swa : swaFree.Perm (partners ++ swaFree')) (ordered : e.prefixLen ≤ e.seqLen)
    (goesOn : e.GoesOn p) (isHeld : e.prefixLen % p ≠ 0 → e.lastLoc.toNat ∈ held)
    (exactly : taken.length = e.numNewPages p)
    (tailExactly : partners.length = numPages p swaTailLen) (inside : swaTailLen ≤ e.extendLen)
    (aligned : (e.seqLen - swaTailLen) % p = 0) (some : swaTailLen ≠ 0) :
    Linked p numFull numSwa fullFree' swaFree' (held ++ (e.locations p taken).map Int.toNat)
      (applyStores mapping
        ((((e.locations p taken).map Int.toNat).drop (e.extendLen - swaTailLen)).zip
          (((blocks p partners).take swaTailLen).map (Nat.cast ·))))
      (applyStores link ((tailPages p swaTailLen taken).zip partners)) := by
  obtain ⟨tailLength, isDropped⟩ := drop_locations positive exactly some inside aligned
  obtain ⟨within, covered⟩ := request_indices positive ordered goesOn isHeld exactly
  have isStored : ((e.locations p taken).map Int.toNat).drop (e.extendLen - swaTailLen) =
      (blocks p (tailPages p swaTailLen taken)).take swaTailLen := by
    rw [← map_drop, isDropped, map_map]
    exact map_id _
  have isNew : ∀ i ∈ (blocks p (tailPages p swaTailLen taken)).take swaTailLen,
      i ∈ (e.locations p taken).map Int.toNat := by
    rw [← isStored]
    exact fun i inTail => mem_of_mem_drop inTail
  have length : (tailPages p swaTailLen taken).length = partners.length := by
    rw [tailLength, tailExactly]
  have distinct : (tailPages p swaTailLen taken).Nodup :=
    (nodup_append.mp (full.nodup_iff.mp linked.frontNodup)).1.sublist (drop_sublist ..)
  have values : (tailPages p swaTailLen taken).map
      (applyStores link ((tailPages p swaTailLen taken).zip partners)) = partners :=
    map_applyStores_zip distinct length
  -- only the pages of the tail are linked; the others are handed out without a link
  refine linked.grow positive full swa (fun _ inTail => mem_of_mem_drop inTail) distinct
    length within covered isNew ?_ ?_ ?_
  · intro i member
    have inBlocks := mem_of_mem_take member
    rw [← count_pos_iff, count_blocks positive, count_pos_iff] at inBlocks
    exact .inl inBlocks
  · intro page inTail
    have first : ((page * p : Nat) : Int) ∈
        (⟨0, swaTailLen, -1⟩ : Extend).locations p (tailPages p swaTailLen taken) :=
      Extend.first_mem_locations positive
        (by rw [tailLength, Extend.numNewPages, numPages_zero positive, Nat.sub_zero]) inTail
    rw [locations_of_zero positive] at first
    obtain ⟨i, isIndex, same⟩ := mem_map.mp first
    rw [Int.ofNat_inj.mp same] at isIndex
    exact ⟨page * p, isIndex, Nat.mul_div_cancel _ positive⟩
  · intro i
    have stored : ((blocks p partners).take swaTailLen).map (Nat.cast ·) =
        ((blocks p (tailPages p swaTailLen taken)).take swaTailLen).map fun i =>
          (linkedIndex p (applyStores link ((tailPages p swaTailLen taken).zip partners)) i :
            Int) := by
      conv_lhs => rw [← values, blocks_map positive, ← map_take, map_map]
      rfl
    rw [isStored, stored, applyStores_zip_map]

theorem untailed_linked (linked : Linked p numFull numSwa fullFree swaFree held mapping link)
    (positive : 0 < p) (full : fullFree.Perm (taken ++ fullFree'))
    (ordered : e.prefixLen ≤ e.seqLen)
    (goesOn : e.GoesOn p) (isHeld : e.prefixLen % p ≠ 0 → e.lastLoc.toNat ∈ held)
    (exactly : taken.length = e.numNewPages p) :
    Linked p numFull numSwa fullFree' swaFree (held ++ (e.locations p taken).map Int.toNat)
      mapping link := by
  obtain ⟨within, covered⟩ := request_indices positive ordered goesOn isHeld exactly
  have none {P : Nat → Prop} : ∀ i ∈ ([] : List Nat), P i := fun i member => nomatch member
  exact linked.grow positive full (List.Perm.refl ([] ++ swaFree)) none nodup_nil rfl within
    covered none none none fun _ => rfl

end Extended

/-! ### Calls -/

theorem getNumNewPages_swaBatch {p : Nat} (a : SwaAllocator) (batch : List Extend) :
    getNumNewPages p (a.swaBatch batch) = getNumNewPages p batch := by
  rw [getNumNewPages, SwaAllocator.swaBatch, tally, map_map]
  rfl

namespace Holders

structure Good (sizeFull sizeSwa p : Nat) (s : Holders) : Prop where
  positive : 0 < p
  pageSize : s.allocator.pageSize = p
  fullPageSize : s.allocator.fullAttnAllocator.pageSize = p
  swaPageSize : s.allocator.swaAttnAllocator.pageSize = p
  fullSize : s.allocator.sizeFull = sizeFull
  swaSize : s.allocator.sizeSwa = sizeSwa
  fullTidy : s.allocator.fullAttnAllocator.Tidy
  swaTidy : s.allocator.swaAttnAllocator.Tidy
  linked : ∃ link, Linked p (sizeFull / p) (sizeSwa / p) s.allocator.fullAttnAllocator.pages
    s.allocator.swaAttnAllocator.pages s.held s.allocator.fullToSwaIndexMapping link

structure Unchanged (a a' : SwaAllocator) : Prop where
  full : a'.fullAttnAllocator.pages.Perm a.fullAttnAllocator.pages
  swa : a'.swaAttnAllocator.pages.Perm a.swaAttnAllocator.pages
  mapping : a'.fullToSwaIndexMapping = a.fullToSwaIndexMapping

theorem Unchanged.refl (a : SwaAllocator) : Unchanged a a :=
  ⟨List.Perm.refl _, List.Perm.refl _, rfl⟩

/-- What a call leaves of the allocator, and what it hands out. -/
structure Answered (sizeFull sizeSwa p : Nat) (s : Holders) (result : Option (List Nat))
    (a' : SwaAllocator) : Prop where
  unchanged : result = none → Unchanged s.allocator a'
  good : Good sizeFull sizeSwa p ⟨a', s.held ++ result.getD []⟩

variable {sizeFull sizeSwa p : Nat} {s : Holders}

theorem good_init (sizeFull sizeSwa : Nat) (positive : 0 < p) (needSort : Bool) :
    (init sizeFull sizeSwa p needSort).Good sizeFull sizeSwa p where
  positive := positive
  pageSize := rfl
  fullPageSize := rfl
  swaPageSize := rfl
  fullSize := rfl
  swaSize := rfl
  fullTidy := ⟨positive, fun _ => rfl⟩
  swaTidy := ⟨positive, fun _ => rfl⟩
  linked := ⟨fun _ => 0, by
    have start := Linked.init p (sizeFull / p) (sizeSwa / p)
    rwa [← append_nil (range' 1 (sizeFull / p)),
      ← append_nil (range' 1 (sizeSwa / p))] at start⟩

namespace Good

variable (good : s.Good sizeFull sizeSwa p) {result : Option (List Nat)} {a' : SwaAllocator}
  {fullLaunch swaLaunch : Launch}

include good

theorem taken {full swa : Allocator} {taken partners : List Nat} {mapping : Nat → Int}
    {held : List Nat} (fullTakes : s.allocator.fullAttnAllocator.Takes taken full)
    (swaTakes : s.allocator.swaAttnAllocator.Takes partners swa)
    (linked : ∃ link, Linked p (sizeFull / p) (sizeSwa / p) full.pages swa.pages held mapping
      link) :
    Good sizeFull sizeSwa p
      ⟨{ s.allocator with
          fullAttnAllocator := full
          swaAttnAllocator := swa
          fullToSwaIndexMapping := mapping }, held⟩ where
  positive := good.positive
  pageSize := good.pageSize
  fullPageSize := fullTakes.pageSize.trans good.fullPageSize
  swaPageSize := swaTakes.pageSize.trans good.swaPageSize
  fullSize := good.fullSize
  swaSize := good.swaSize
  fullTidy := fullTakes.tidy
  swaTidy := swaTakes.tidy
  linked := linked

theorem full_available : s.allocator.fullAttnAllocator.availableSize / s.allocator.pageSize =
    s.allocator.fullAttnAllocator.pages.length := by
  rw [good.pageSize, ← good.fullPageSize, Allocator.availableSize_div good.fullTidy]

theorem swa_available : s.allocator.swaAttnAllocator.availableSize / s.allocator.pageSize =
    s.allocator.swaAttnAllocator.pages.length := by
  rw [good.pageSize, ← good.swaPageSize, Allocator.availableSize_div good.swaTidy]

theorem goesOn {e : Extend} (continues : s.Continues e) : e.GoesOn p := by
  obtain ⟨-, last⟩ := continues
  rw [good.pageSize] at last
  exact fun onPage => ⟨(last onPage).1, (last onPage).2.2⟩

theorem idle : Answered sizeFull sizeSwa p s none s.allocator :=
  ⟨fun _ => Unchanged.refl _, by rwa [Option.getD_none, append_nil]⟩

theorem alloc {needSize : Nat} (ran : s.allocator.alloc needSize = .ok (result, a')) :
    Answered sizeFull sizeSwa p s result a' := by
  have fullAvailable := good.full_available
  have swaAvailable := good.swa_available
  rw [SwaAllocator.alloc] at ran
  split at ran
  · cases ran
  next single =>
  obtain rfl : p = 1 := good.pageSize.symm.trans (Decidable.not_not.mp single)
  rw [good.pageSize] at fullAvailable swaAvailable
  split at ran
  · cases ran
    exact good.idle
  next fullEnough =>
  split at ran
  · cases ran
    exact good.idle
  next swaEnough =>
  have wanted : needSize / 1 = needSize := Nat.div_one _
  obtain ⟨taken, full, isFull, length, fullTakes⟩ := good.fullTidy.alloc needSize
    (by rw [good.fullPageSize]; omega)
  obtain ⟨partners, swa, isSwa, length', swaTakes⟩ := good.swaTidy.alloc needSize
    (by rw [good.swaPageSize]; omega)
  rw [isFull, isSwa, good.fullPageSize, good.swaPageSize, blocks_one, blocks_one] at ran
  rw [good.fullPageSize] at length
  rw [good.swaPageSize] at length'
  cases ran
  obtain ⟨link, linked⟩ := good.linked
  exact ⟨by simp, good.taken fullTakes swaTakes
    ⟨_, alloc_linked linked fullTakes.pages swaTakes.pages (length.trans length'.symm)⟩⟩

theorem extended {batch : List Extend} {taken partners : List Nat} {full swa : Allocator}
    (continues : ∀ e ∈ batch, s.Continues e) (backed : ∀ e ∈ batch, s.Backed e)
    (exactly : taken.length = getNumNewPages p batch) (length : taken.length = partners.length)
    (fullTakes : s.allocator.fullAttnAllocator.Takes taken full)
    (swaTakes : s.allocator.swaAttnAllocator.Takes partners swa) :
    Good sizeFull sizeSwa p
      ⟨{ s.allocator with fullAttnAllocator := full, swaAttnAllocator := swa }.setFullToSwaMapping
          (batchIndices p batch taken)
          (batchLocations p (s.allocator.swaBatch batch) partners),
        s.held ++ batchIndices p batch taken⟩ := by
  obtain ⟨link, linked⟩ := good.linked
  refine good.taken fullTakes swaTakes ⟨_, extend_linked linked good.positive fullTakes.pages
    swaTakes.pages (fun e member => (continues e member).1) exactly length
    (fun e member => good.goesOn (continues e member)) (fun _ _ => ⟨rfl, rfl⟩) ?_⟩
  intro e member onPage
  have isBacked := backed e member
  have isLast := (continues e member).2
  rw [Backed, good.pageSize] at isBacked
  rw [good.pageSize] at isLast
  refine ⟨isBacked onPage, ?_⟩
  exact if_neg (by omega)

theorem allocExtend {batch : List Extend} (continues : ∀ e ∈ batch, s.Continues e)
    (backed : ∀ e ∈ batch, s.Backed e)
    (ran : s.allocator.allocExtend fullLaunch swaLaunch batch = .ok (result, a')) :
    Answered sizeFull sizeSwa p s result a' := by
  have ordered : ∀ e ∈ batch, e.prefixLen ≤ e.seqLen := fun e member => (continues e member).1
  have swaOrdered : ∀ e ∈ s.allocator.swaBatch batch, e.prefixLen ≤ e.seqLen := by
    intro e member
    obtain ⟨e, inBatch, rfl⟩ := mem_map.mp member
    exact ordered e inBatch
  rw [SwaAllocator.allocExtend] at ran
  split at ran
  · cases ran
  simp only [good.full_available, good.swa_available] at ran
  split at ran
  · cases ran
    exact good.idle
  next fullEnough =>
  split at ran
  · cases ran
    exact good.idle
  next swaEnough =>
  -- both allocators see the same lengths, so they take the same number of pages
  have samePages := getNumNewPages_swaBatch (p := p) s.allocator batch
  have sameTokens : tally (s.allocator.swaBatch batch) (·.extendLen) =
      tally batch (·.extendLen) := by
    rw [SwaAllocator.swaBatch, tally, map_map]
    rfl
  have isPage := good.pageSize
  obtain ⟨taken, full, isFull, length, fullTakes⟩ := good.fullTidy.allocExtend fullLaunch batch
    (some (getNumNewPages s.allocator.pageSize batch)) ordered
    (by rw [good.fullPageSize, ← isPage]; omega) (by rw [good.fullPageSize, isPage]; rfl)
  obtain ⟨partners, swa, isSwa, length', swaTakes⟩ := good.swaTidy.allocExtend swaLaunch
    (s.allocator.swaBatch batch) (some (getNumNewPages s.allocator.pageSize batch)) swaOrdered
    (by rw [good.swaPageSize, samePages, ← isPage]; omega)
    (by rw [good.swaPageSize, samePages, isPage]; rfl)
  rw [sameTokens] at isSwa
  rw [isFull, isSwa, good.fullPageSize, good.swaPageSize] at ran
  rw [good.fullPageSize] at length
  rw [good.swaPageSize, samePages] at length'
  cases ran
  exact ⟨by simp, good.extended continues backed length (length.trans length'.symm) fullTakes
    swaTakes⟩

theorem allocExtendSwaTail {e : Extend} {swaTailLen : Nat} (continues : s.Continues e)
    (aligned : (e.seqLen - swaTailLen) % s.allocator.pageSize = 0)
    (ran : s.allocator.allocExtendSwaTail fullLaunch swaLaunch e swaTailLen = .ok (result, a')) :
    Answered sizeFull sizeSwa p s result a' := by
  have positive := good.positive
  have isPage := good.pageSize
  have goesOn := good.goesOn continues
  have isHeld : e.prefixLen % p ≠ 0 → e.lastLoc.toNat ∈ s.held := by
    rw [← isPage]
    exact fun onPage => (continues.2 onPage).2.1
  have fullCount : getNumNewPages p [e] = e.numNewPages p := getNumNewPages_singleton
  have swaCount : getNumNewPages p [⟨0, swaTailLen, -1⟩] = numPages p swaTailLen := by
    rw [getNumNewPages_singleton, Extend.numNewPages, numPages_zero positive, Nat.sub_zero]
  have single (e : Extend) : tally [e] (·.extendLen) = e.extendLen := by
    rw [tally_cons, tally_nil, Nat.add_zero]
  rw [SwaAllocator.allocExtendSwaTail] at ran
  split at ran
  · cases ran
  split at ran
  · cases ran
  next inside =>
  simp only [good.full_available, good.swa_available] at ran
  split at ran
  · cases ran
    exact good.idle
  next fullEnough =>
  split at ran
  · cases ran
    exact good.idle
  next swaEnough =>
  obtain ⟨taken, full, isFull, length, fullTakes⟩ := good.fullTidy.allocExtend fullLaunch [e] none
    (by simpa using continues.1) (by rw [good.fullPageSize, ← isPage]; omega) rfl
  rw [good.fullPageSize] at length
  rw [single, good.fullPageSize, batchLocations_singleton length] at isFull
  rw [isFull] at ran
  obtain ⟨link, linked⟩ := good.linked
  dsimp only at ran
  split at ran
  · cases ran
    exact ⟨by simp, good.taken fullTakes (good.swaTidy.takesNone)
      ⟨_, untailed_linked linked positive fullTakes.pages continues.1 goesOn isHeld length⟩⟩
  next some =>
  -- in the other pool the tail is a request of its own
  obtain ⟨partners, swa, isSwa, length', swaTakes⟩ := good.swaTidy.allocExtend swaLaunch
    [⟨0, swaTailLen, -1⟩] none (by simp) (by rw [good.swaPageSize, swaCount, ← isPage]; omega) rfl
  rw [good.swaPageSize, swaCount] at length'
  have tailTokens : (⟨0, swaTailLen, -1⟩ : Extend).extendLen = swaTailLen := Nat.sub_zero _
  have isTail : batchLocations p [⟨0, swaTailLen, -1⟩] partners =
      ((blocks p partners).take swaTailLen).map (Nat.cast ·) := by
    rw [batchLocations_singleton, locations_of_zero positive]
    rw [length', ← getNumNewPages_singleton, swaCount]
  rw [single, tailTokens, good.swaPageSize, isTail] at isSwa
  rw [isSwa] at ran
  have tokens : ((e.locations p taken).map Int.toNat).length = e.extendLen := by
    rw [length_map, Extend.length_locations positive continues.1 length]
  rw [tokens] at ran
  cases ran
  rw [isPage] at aligned
  exact ⟨by simp, good.taken fullTakes swaTakes ⟨_, tail_linked linked positive fullTakes.pages
    swaTakes.pages continues.1 goesOn isHeld length length' (by omega) aligned some⟩⟩

theorem allocDecode {batch : List (Nat × Int)} (some : ∀ request ∈ batch, 1 ≤ request.1)
    (continues : ∀ e ∈ Allocator.nextTokens batch, s.Continues e)
    (supported : s.Supported (.allocate (.allocDecode fullLaunch swaLaunch batch)))
    (ran : s.allocator.allocDecode fullLaunch swaLaunch batch = .ok (result, a')) :
    Answered sizeFull sizeSwa p s result a' := by
  obtain ⟨backed, both⟩ := supported
  rw [good.full_available, good.swa_available] at both
  have isPage := good.pageSize
  rw [SwaAllocator.allocDecode] at ran
  split at ran
  · cases ran
  next paged =>
  rw [isPage, Nat.not_le] at paged
  rw [isPage, Allocator.getNumNewPagesDecode_nextTokens paged] at both
  have swaSome : ∀ request ∈ s.allocator.swaDecodeBatch batch, 1 ≤ request.1 := by
    intro request member
    obtain ⟨request, inBatch, rfl⟩ := mem_map.mp member
    exact some request inBatch
  have isSwaBatch : Allocator.nextTokens (s.allocator.swaDecodeBatch batch) =
      s.allocator.swaBatch (Allocator.nextTokens batch) := by
    rw [Allocator.nextTokens, SwaAllocator.swaDecodeBatch, SwaAllocator.swaBatch,
      Allocator.nextTokens, map_map, map_map]
    rfl
  have samePages := getNumNewPages_swaBatch (p := p) s.allocator (Allocator.nextTokens batch)
  -- `both` excludes that one pool has enough pages and the other has not
  by_cases enough : getNumNewPages p (Allocator.nextTokens batch) ≤
      s.allocator.fullAttnAllocator.pages.length
  · obtain ⟨taken, full, isFull, length, fullTakes⟩ := good.fullTidy.allocDecode
      (by rwa [good.fullPageSize]) fullLaunch some (by rwa [good.fullPageSize])
    obtain ⟨partners, swa, isSwa, length', swaTakes⟩ := good.swaTidy.allocDecode
      (by rwa [good.swaPageSize]) swaLaunch swaSome
      (by rw [good.swaPageSize, isSwaBatch, samePages]; exact both.mp enough)
    rw [good.fullPageSize] at length
    rw [good.swaPageSize, isSwaBatch, samePages] at length'
    rw [good.fullPageSize] at isFull
    rw [good.swaPageSize, isSwaBatch] at isSwa
    rw [isFull, isSwa] at ran
    cases ran
    exact ⟨by simp, good.extended continues backed length (length.trans length'.symm) fullTakes
      swaTakes⟩
  · have isFull := good.fullTidy.allocDecode_none (by rwa [good.fullPageSize]) fullLaunch
      batch (by rw [good.fullPageSize]; omega)
    have isSwa := good.swaTidy.allocDecode_none (by rwa [good.swaPageSize]) swaLaunch _ (by
      rw [good.swaPageSize, isSwaBatch, samePages]
      exact Nat.not_le.mp (both.not.mp enough))
    rw [isFull, isSwa] at ran
    cases ran
    have fullTakes := good.fullTidy.refill batch.length
    have swaTakes := good.swaTidy.refill (s.allocator.swaDecodeBatch batch).length
    obtain ⟨link, linked⟩ := good.linked
    refine ⟨fun _ => ⟨fullTakes.pages.symm, swaTakes.pages.symm, rfl⟩, ?_⟩
    rw [Option.getD_none, append_nil]
    exact good.taken fullTakes swaTakes ⟨link, linked.perm fullTakes.pages swaTakes.pages⟩

theorem freeSwa {freeIndex : List Nat} (whole : s.WholePages freeIndex) :
    Good sizeFull sizeSwa p { s with allocator := s.allocator.freeSwa freeIndex } := by
  obtain ⟨distinct, pages⟩ := whole
  rw [good.pageSize] at pages
  obtain ⟨link, linked⟩ := good.linked
  obtain ⟨swaPageSize, swaPages, swaTidy⟩ :=
    good.swaTidy.free fun _ => linked.nodup_behind good.positive distinct
  rw [good.swaPageSize] at swaPages swaPageSize
  exact
    { good with
      swaPageSize := swaPageSize
      swaTidy := swaTidy
      linked := ⟨_, linked.cut (fun i member => (pages i member).2) good.positive swaPages
        fun _ => rfl⟩ }

theorem free {freeIndex : List Nat} (whole : s.WholePages freeIndex)
    (ran : s.allocator.free freeIndex = .ok a') :
    Good sizeFull sizeSwa p ⟨a', s.held.filter (· ∉ freeIndex)⟩ := by
  rw [SwaAllocator.free] at ran
  split at ran
  · next empty =>
    cases ran
    rw [isEmpty_iff.mp empty]
    simpa using good
  dsimp only at ran
  split at ran
  case isFalse => cases ran
  cases ran
  have cut := good.freeSwa whole
  obtain ⟨distinct, pages⟩ := whole
  rw [good.pageSize] at pages
  obtain ⟨fullPageSize, fullPages, fullTidy⟩ := good.fullTidy.free fun _ => distinct
  rw [good.fullPageSize] at fullPages fullPageSize
  obtain ⟨link, linked⟩ := cut.linked
  exact
    { cut with
      fullPageSize := fullPageSize
      fullTidy := fullTidy
      linked := ⟨link, linked.giveBack (fun i member => (pages i member).2)
        (fun i member => (pages i member).1) (fun i member => if_pos member) fullPages⟩ }

theorem allocate {request : Request} (proper : s.Proper (.allocate request))
    (supported : s.Supported (.allocate request))
    (ran : s.allocator.allocate request = .ok (result, a')) :
    Answered sizeFull sizeSwa p s result a' := by
  cases request with
  | alloc needSize => exact good.alloc ran
  | allocExtend fullLaunch swaLaunch batch => exact good.allocExtend proper supported ran
  | allocExtendSwaTail fullLaunch swaLaunch e swaTailLen =>
    exact good.allocExtendSwaTail proper.1 proper.2 ran
  | allocDecode fullLaunch swaLaunch batch =>
    exact good.allocDecode proper.1 proper.2 supported ran

theorem step {call : Call} {s' : Holders} (proper : s.Proper call) (supported : s.Supported call)
    (ran : s.step call = .ok s') : Good sizeFull sizeSwa p s' := by
  cases call with
  | allocate request =>
    simp only [Holders.step] at ran
    split at ran
    · next indices a' allocated =>
      cases ran
      exact (good.allocate proper supported allocated).good
    · next a' allocated =>
      cases ran
      have kept := (good.allocate proper supported allocated).good
      rwa [Option.getD_none, append_nil] at kept
    · cases ran
  | free freeIndex =>
    simp only [Holders.step] at ran
    split at ran
    · next a' freed =>
      cases ran
      exact good.free proper freed
    · cases ran
  | freeSwa freeIndex =>
    cases ran
    exact good.freeSwa proper

end Good

end Holders

/-- No two held indices have the same index behind them, and a page of the other pool is free
    exactly when no index maps into it. -/
structure Holders.Conserved (s : Holders) : Prop where
  distinct : ∀ i ∈ s.held, ∀ j ∈ s.held, i ≠ j → s.allocator.fullToSwaIndexMapping i ≠ 0 →
    s.allocator.fullToSwaIndexMapping i ≠ s.allocator.fullToSwaIndexMapping j
  free_iff : ∀ page, 1 ≤ page → page ≤ s.allocator.sizeSwa / s.allocator.pageSize →
    (page ∈ s.allocator.swaAttnAllocator.freePages ++ s.allocator.swaAttnAllocator.releasePages ↔
      ∀ i, s.allocator.fullToSwaIndexMapping i / (s.allocator.pageSize : Int) ≠ page)

theorem Holders.Good.conserved {sizeFull sizeSwa p : Nat} {s : Holders}
    (good : s.Good sizeFull sizeSwa p) : s.Conserved := by
  obtain ⟨link, linked⟩ := good.linked
  constructor
  · intro i _ j _ different isMapped same
    exact different (linked.mapping_injective good.positive isMapped same)
  · intro page least most
    rw [good.pageSize, good.swaSize] at most
    rw [good.pageSize]
    exact linked.mem_back_iff good.positive ⟨least, most⟩

/-- In every run whose calls all have pages of the other pool to go on in, and in which no decode
    finds enough pages in one pool only, the allocator conserves the pages of both pools: different
    held indices have different indices behind them, a page of the other pool is free exactly when
    no index maps into it, and a call that returns nothing changes neither the free pages nor the
    mapping. -/
theorem swa_allocator_conserved (sizeFull sizeSwa pageSize : Nat) (positive : 0 < pageSize)
    (needSort : Bool) (calls : List Call) (s : Holders)
    (admissible : Admissible Holders.step (fun s call => s.Proper call ∧ s.Supported call)
      (.init sizeFull sizeSwa pageSize needSort) calls)
    (ran : run Holders.step (.init sizeFull sizeSwa pageSize needSort) calls = .ok s) :
    s.Conserved ∧
      ∀ request a', s.Proper (.allocate request) → s.Supported (.allocate request) →
        s.allocator.allocate request = .ok (none, a') →
        (a'.fullAttnAllocator.freePages ++ a'.fullAttnAllocator.releasePages).Perm
            (s.allocator.fullAttnAllocator.freePages ++
              s.allocator.fullAttnAllocator.releasePages) ∧
          (a'.swaAttnAllocator.freePages ++ a'.swaAttnAllocator.releasePages).Perm
            (s.allocator.swaAttnAllocator.freePages ++
              s.allocator.swaAttnAllocator.releasePages) ∧
          a'.fullToSwaIndexMapping = s.allocator.fullToSwaIndexMapping := by
  have good : s.Good sizeFull sizeSwa pageSize :=
    run_invariant (fun s call s' (good : s.Good sizeFull sizeSwa pageSize) allowed stepped =>
      good.step allowed.1 allowed.2 stepped) calls _ s
      (Holders.good_init sizeFull sizeSwa positive needSort) admissible ran
  refine ⟨good.conserved, ?_⟩
  intro request a' proper supported allocated
  have kept := (good.allocate proper supported allocated).unchanged rfl
  exact ⟨kept.full, kept.swa, kept.mapping⟩

/-- Two requests are extended and go on, one of them frees its window and then everything; the
    full pool is used up by the tail of a third one. -/
def someCalls : List Call :=
  [.allocate (.allocExtend .sequential .sequential [⟨0, 3, -1⟩, ⟨0, 2, -1⟩]),
    .allocate (.allocDecode .sequential .sequential [(4, 4), (3, 7)]),
    .freeSwa [2, 3],
    .free [2, 3, 4, 5],
    .allocate (.allocExtendSwaTail .sequential .sequential ⟨0, 4, -1⟩ 2)]

theorem swa_allocator_conserved_someCalls :
    ∃ s, run Holders.step (.init 8 8 2 false) someCalls = .ok s ∧ s.Conserved := by
  obtain ⟨s, ran, -⟩ : ∃ s, run Holders.step (.init 8 8 2 false) someCalls = .ok s ∧ True := by
    decide +kernel
  exact ⟨s, ran, (swa_allocator_conserved 8 8 2 (by decide) false someCalls s (by decide +kernel)
    ran).1⟩

/-- One request that fills its page. -/
def onePage : List Call :=
  [.allocate (.allocExtend .sequential .sequential [⟨0, 2, -1⟩])]

/-- The next token of that request. -/
def nextPage : Request :=
  .allocDecode .sequential .sequential [(3, 3)]

/-- A decode that finds its page in the full pool only: it returns nothing, and the page of the
    full pool is lost. -/
theorem decode_short_in_one_pool :
    ∃ s, run Holders.step (.init 4 2 2 false) onePage = .ok s ∧
      s.Proper (.allocate nextPage) ∧ s.allocator.fullAttnAllocator.pages = [2] ∧
      ∃ a', s.allocator.allocate nextPage = .ok (none, a') ∧
        a'.fullAttnAllocator.pages = [] := by
  obtain ⟨s, ran, proper, before, _, a', allocated, rfl, lost⟩ :
      ∃ s, run Holders.step (.init 4 2 2 false) onePage = .ok s ∧
        s.Proper (.allocate nextPage) ∧ s.allocator.fullAttnAllocator.pages = [2] ∧
        ∃ answer a', s.allocator.allocate nextPage = .ok (answer, a') ∧ answer = none ∧
          a'.fullAttnAllocator.pages = [] := by decide +kernel
  exact ⟨s, ran, proper, before, a', allocated, lost⟩

-- Two requests go on in pages whose part of the other pool has been freed: the entry 0 of their
-- last locations is taken for a location, and both get index 1 of the dummy page.
example :
    ∃ s, run Holders.step (.init 8 8 2 false)
        [.allocate (.allocExtend .sequential .sequential [⟨0, 1, -1⟩, ⟨0, 1, -1⟩]),
          .freeSwa [2, 4],
          .allocate (.allocDecode .sequential .sequential [(2, 2), (2, 4)])] = .ok s ∧
      s.allocator.fullToSwaIndexMapping 3 = 1 ∧ s.allocator.fullToSwaIndexMapping 5 = 1 := by
  decide +kernel

end Engram.Alloc
