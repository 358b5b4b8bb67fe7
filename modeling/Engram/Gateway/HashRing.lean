import Mathlib.Data.List.Rotate
import Mathlib.Data.List.Sort

/-!
# The consistent hash ring

Every worker has 150 places on a ring of 64-bit positions. A key belongs to the first healthy
worker clockwise from its position. Distance on the ring is wrapping subtraction, so the owner is
the worker of the nearest healthy entry, and workers that come and go only take or give up the
keys they are nearest to (`findHealthyUrl_moves_few_keys`).
-/

namespace Engram.Gateway

open List

/-- The first eight bytes of the hash, read as a little-endian number. -/
abbrev Blake3 := List UInt8 → UInt64

def virtualNodesPerWorker : Nat := 150

/-- A ring position with the URL of the worker placed there. -/
abbrev RingEntry := UInt64 × String

structure HashRing where
  entries : List RingEntry

def toLeBytes (n : UInt64) : List UInt8 :=
  [n, n >>> 8, n >>> 16, n >>> 24, n >>> 32, n >>> 40, n >>> 48, n >>> 56].map (·.toUInt8)

variable (blake3 : Blake3) {pos : UInt64}

def virtualNode (url : String) (vnode : Nat) : RingEntry :=
  (blake3 (url.toUTF8.toList ++ "#".toUTF8.toList ++ toLeBytes (UInt64.ofNat vnode)), url)

def virtualNodes (workers : List String) : List RingEntry :=
  workers.flatMap fun url => (List.range virtualNodesPerWorker).map (virtualNode blake3 url)

def HashRing.new (workers : List String) : HashRing :=
  ⟨(virtualNodes blake3 workers).insertionSort (fun a b => a.1 ≤ b.1)⟩

def hashPosition (s : String) : UInt64 :=
  blake3 s.toUTF8.toList

def walk (isHealthy : String → Bool) (checkedUrls : List String) : List RingEntry → Option String
  | [] => none
  | (_, url) :: entries =>
    if url ∈ checkedUrls then walk isHealthy checkedUrls entries
    else if isHealthy url then some url
    else walk isHealthy (url :: checkedUrls) entries

def HashRing.findHealthyUrl (ring : HashRing) (key : String) (isHealthy : String → Bool) :
    Option String :=
  let keyPos := hashPosition blake3 key
  -- `partition_point` on a sorted list
  let start := (ring.entries.takeWhile (·.1 < keyPos)).length
  walk isHealthy [] <| (List.range ring.entries.length).filterMap fun i =>
    ring.entries[(start + i) % ring.entries.length]?

/-! ### The walk -/

theorem walk_eq_find? (isHealthy : String → Bool) (checkedUrls : List String)
    (unhealthy : ∀ url ∈ checkedUrls, isHealthy url = false) (entries : List RingEntry) :
    walk isHealthy checkedUrls entries = (entries.find? (isHealthy ·.2)).map (·.2) := by
  induction entries generalizing checkedUrls with
  | nil => rfl
  | cons entry entries ih =>
    rw [walk, find?_cons]
    split
    · next checked => rw [unhealthy _ checked, ih _ unhealthy]
    cases health : isHealthy entry.2 with
    | true => rfl
    | false =>
      rw [if_neg (by simp), ih]
      exact forall_mem_cons.mpr ⟨health, unhealthy⟩

theorem filterMap_range_getElem? {α : Type} (xs : List α) :
    ((List.range xs.length).filterMap fun i => xs[i]?) = xs := by
  induction xs with
  | nil => rfl
  | cons x xs ih => simpa [range_succ_eq_map] using ih

/-- The indices the loop computes turn the list round. -/
theorem filterMap_range_mod {α : Type} (xs : List α) (start : Nat) :
    ((List.range xs.length).filterMap fun i => xs[(start + i) % xs.length]?) = xs.rotate start := by
  rw [← filterMap_range_getElem? (xs.rotate start), length_rotate]
  refine filterMap_congr ?_
  intro i member
  rw [getElem?_rotate (mem_range.mp member), Nat.add_comm]

/-! ### Nearest entries -/

def distance (pos : UInt64) (entry : RingEntry) : UInt64 :=
  entry.1 - pos

theorem distance_le_of_le {pos : UInt64} {a b : RingEntry} (near : pos ≤ a.1)
    (far : b.1 < pos ∨ a.1 ≤ b.1) : distance pos a ≤ distance pos b := by
  have := a.1.toNat_lt
  have := b.1.toNat_lt
  simp only [distance, UInt64.le_iff_toNat_le, UInt64.lt_iff_toNat_lt, UInt64.toNat_sub] at *
  omega

theorem distance_le_of_wrapped {pos : UInt64} {a b : RingEntry} (wrapped : b.1 < pos)
    (sorted : a.1 ≤ b.1) : distance pos a ≤ distance pos b := by
  have := pos.toNat_lt
  simp only [distance, UInt64.le_iff_toNat_le, UInt64.lt_iff_toNat_lt, UInt64.toNat_sub] at *
  omega

def HashRing.clockwise (ring : HashRing) (pos : UInt64) : List RingEntry :=
  ring.entries.dropWhile (·.1 < pos) ++ ring.entries.takeWhile (·.1 < pos)

theorem findHealthyUrl_eq (ring : HashRing) (key : String) (isHealthy : String → Bool) :
    ring.findHealthyUrl blake3 key isHealthy =
      ((ring.clockwise (hashPosition blake3 key)).find? (isHealthy ·.2)).map (·.2) := by
  have turned (xs ys : List RingEntry) : (xs ++ ys).rotate xs.length = ys ++ xs :=
    rotate_append_length_eq xs ys
  rw [HashRing.findHealthyUrl, filterMap_range_mod, walk_eq_find? _ _ (by simp),
    HashRing.clockwise, ← turned, takeWhile_append_dropWhile]

theorem le_of_mem_dropWhile {entries : List RingEntry}
    (sorted : entries.Pairwise (fun a b => a.1 ≤ b.1)) :
    ∀ entry ∈ entries.dropWhile (·.1 < pos), pos ≤ entry.1 := by
  induction entries with
  | nil => simp
  | cons first entries ih =>
    obtain ⟨least, sorted⟩ := pairwise_cons.mp sorted
    by_cases before : first.1 < pos
    · simpa [before] using ih sorted
    · rw [dropWhile_cons_of_neg (by simpa using before), forall_mem_cons]
      have start := UInt64.not_lt.mp before
      exact ⟨start, fun other member => UInt64.le_trans start (least other member)⟩

variable {blake3} {workers : List String} {isHealthy : String → Bool} {key : String}

theorem clockwise_pairwise :
    ((HashRing.new blake3 workers).clockwise pos).Pairwise
      (fun a b => distance pos a ≤ distance pos b) := by
  have sorted : (HashRing.new blake3 workers).entries.Pairwise (fun a b => a.1 ≤ b.1) :=
    pairwise_insertionSort _ _
  have after : ∀ entry ∈ (HashRing.new blake3 workers).entries.dropWhile (·.1 < pos),
      pos ≤ entry.1 := le_of_mem_dropWhile sorted
  have wrapped : ∀ entry ∈ (HashRing.new blake3 workers).entries.takeWhile (·.1 < pos),
      entry.1 < pos := fun entry member => by simpa using all_eq_true.mp all_takeWhile entry member
  rw [HashRing.clockwise, pairwise_append]
  refine ⟨?_, ?_, ?_⟩
  · refine (sorted.sublist (dropWhile_sublist _)).imp_of_mem ?_
    intro a b inA _ le
    exact distance_le_of_le (after a inA) (.inr le)
  · refine (sorted.sublist (takeWhile_sublist _)).imp_of_mem ?_
    intro a b _ inB le
    exact distance_le_of_wrapped (wrapped b inB) le
  · intro a inA b inB
    exact distance_le_of_le (after a inA) (.inl (wrapped b inB))

theorem mem_clockwise {entry : RingEntry} :
    entry ∈ (HashRing.new blake3 workers).clockwise pos ↔ entry ∈ virtualNodes blake3 workers := by
  rw [HashRing.clockwise, mem_append, or_comm, ← mem_append, takeWhile_append_dropWhile]
  exact mem_insertionSort _

/-! ### Owners -/

def Candidate (blake3 : Blake3) (workers : List String) (isHealthy : String → Bool)
    (entry : RingEntry) : Prop :=
  entry ∈ virtualNodes blake3 workers ∧ isHealthy entry.2 = true

/-- The worker of the candidate that comes first clockwise from the position. -/
def Owns (candidate : RingEntry → Prop) (pos : UInt64) (url : String) : Prop :=
  ∃ entry, candidate entry ∧ entry.2 = url ∧
    ∀ other, candidate other → distance pos entry ≤ distance pos other

theorem owns_of_find {url : String}
    (found : (HashRing.new blake3 workers).findHealthyUrl blake3 key isHealthy = some url) :
    Owns (Candidate blake3 workers isHealthy) (hashPosition blake3 key) url := by
  rw [findHealthyUrl_eq, Option.map_eq_some_iff] at found
  obtain ⟨entry, first, rfl⟩ := found
  have ordered : ((HashRing.new blake3 workers).clockwise (hashPosition blake3 key)).Pairwise _ :=
    clockwise_pairwise
  obtain ⟨healthy, front, back, shape, skipped⟩ := find?_eq_some_iff_append.mp first
  refine ⟨entry, ⟨mem_clockwise.mp (mem_of_find?_eq_some first), healthy⟩, rfl, ?_⟩
  rintro other ⟨member, othersHealth⟩
  have placed : other ∈ (HashRing.new blake3 workers).clockwise (hashPosition blake3 key) :=
    mem_clockwise.mpr member
  rw [shape] at placed ordered
  rcases mem_append.mp placed with inFront | inBack
  · have skips := skipped other inFront
    simp [othersHealth] at skips
  · rcases mem_cons.mp inBack with rfl | inBack
    · exact UInt64.le_refl _
    · exact (pairwise_cons.mp (pairwise_append.mp ordered).2.1).1 other inBack

theorem find_eq_none :
    (HashRing.new blake3 workers).findHealthyUrl blake3 key isHealthy = none ↔
      ∀ entry, ¬ Candidate blake3 workers isHealthy entry := by
  simp [findHealthyUrl_eq, mem_clockwise, Candidate]

theorem find_eq_some_iff (distinct : ((virtualNodes blake3 workers).map Prod.fst).Nodup)
    {url : String} :
    (HashRing.new blake3 workers).findHealthyUrl blake3 key isHealthy = some url ↔
      Owns (Candidate blake3 workers isHealthy) (hashPosition blake3 key) url := by
  refine ⟨owns_of_find, ?_⟩
  rintro ⟨entry, candidate, rfl, nearest⟩
  cases found : (HashRing.new blake3 workers).findHealthyUrl blake3 key isHealthy with
  | none => exact absurd candidate (find_eq_none.mp found entry)
  | some other =>
    obtain ⟨entry', candidate', rfl, nearest'⟩ := owns_of_find found
    have same := UInt64.le_antisymm (nearest entry' candidate') (nearest' entry candidate)
    have samePos : entry.1 = entry'.1 := by
      simpa [distance] using same
    rw [inj_on_of_nodup_map distinct candidate.1 candidate'.1 samePos]

theorem find_without {fewer : List String} {isHealthy' : String → Bool} {w : String}
    (distinct : ((virtualNodes blake3 fewer).map Prod.fst).Nodup)
    (among : ∀ entry, Candidate blake3 fewer isHealthy' entry →
      Candidate blake3 workers isHealthy entry)
    (others : ∀ entry, Candidate blake3 workers isHealthy entry → entry.2 ≠ w →
      Candidate blake3 fewer isHealthy' entry) (key : String) :
    (HashRing.new blake3 workers).findHealthyUrl blake3 key isHealthy = some w ∨
      (HashRing.new blake3 fewer).findHealthyUrl blake3 key isHealthy' =
        (HashRing.new blake3 workers).findHealthyUrl blake3 key isHealthy := by
  cases found : (HashRing.new blake3 workers).findHealthyUrl blake3 key isHealthy with
  | none =>
    refine .inr (find_eq_none.mpr ?_)
    exact fun entry candidate => find_eq_none.mp found entry (among entry candidate)
  | some url =>
    obtain ⟨entry, candidate, rfl, nearest⟩ := owns_of_find found
    by_cases same : entry.2 = w
    · exact .inl (congrArg some same)
    · refine .inr ((find_eq_some_iff distinct).mpr ⟨entry, others entry candidate same, rfl, ?_⟩)
      exact fun other candidate => nearest other (among other candidate)

/-- The result is the worker of the first healthy entry clockwise from the key, and `none`
    only without a healthy worker. Between a ring and the same ring with one worker more,
    in whatever order, only keys of that worker differ; a worker that becomes unhealthy
    gives up only its own keys. -/
theorem findHealthyUrl_moves_few_keys (blake3 : Blake3) (workers : List String)
    (distinct : ((virtualNodes blake3 workers).map Prod.fst).Nodup) (key : String)
    (isHealthy : String → Bool) :
    let find workers isHealthy := (HashRing.new blake3 workers).findHealthyUrl blake3 key isHealthy
    (∀ url, find workers isHealthy = some url ↔
      Owns (Candidate blake3 workers isHealthy) (hashPosition blake3 key) url) ∧
    (find workers isHealthy = none ↔ ∀ url ∈ workers, isHealthy url = false) ∧
    ∀ w, (∀ fewer, workers.Perm (w :: fewer) →
        find workers isHealthy = some w ∨ find fewer isHealthy = find workers isHealthy) ∧
      (find workers isHealthy = some w ∨
        find workers (fun url => isHealthy url && url != w) = find workers isHealthy) := by
  intro find
  refine ⟨fun url => find_eq_some_iff distinct, ?_, fun w => ⟨?_, ?_⟩⟩
  · rw [find_eq_none]
    constructor
    · intro none url member
      have placed : virtualNode blake3 url 0 ∈ virtualNodes blake3 workers :=
        mem_flatMap.mpr ⟨url, member, mem_map.mpr ⟨0, by decide, rfl⟩⟩
      simpa [Candidate, virtualNode] using fun health => none _ ⟨placed, health⟩
    · rintro none entry ⟨member, health⟩
      obtain ⟨url, held, node⟩ := mem_flatMap.mp member
      obtain ⟨vnode, -, rfl⟩ := mem_map.mp node
      simp [virtualNode, none url held] at health
  · intro fewer perm
    -- the ring with `w` is the ring without it and the places of `w`
    have nodes : (virtualNodes blake3 workers).Perm
        ((range virtualNodesPerWorker).map (virtualNode blake3 w) ++
          virtualNodes blake3 fewer) := perm.flatMap_right _
    have split := (nodes.map Prod.fst).nodup_iff.mp distinct
    rw [map_append] at split
    refine find_without split.of_append_right ?_ ?_ key
    · rintro entry ⟨member, health⟩
      exact ⟨nodes.mem_iff.mpr (mem_append_right _ member), health⟩
    · rintro entry ⟨member, health⟩ other
      refine ⟨(mem_append.mp (nodes.mem_iff.mp member)).resolve_left ?_, health⟩
      intro gone
      obtain ⟨vnode, -, rfl⟩ := mem_map.mp gone
      exact other rfl
  · refine find_without distinct ?_ ?_ key
    · rintro entry ⟨member, health⟩
      exact ⟨member, (Bool.and_eq_true_iff.mp health).1⟩
    · rintro entry ⟨member, health⟩ other
      exact ⟨member, by simp [health, other]⟩

theorem findHealthyUrl_moves_few_keys_of_two :
    let blake3 : Blake3 := fun bytes =>
      (bytes.getD 0 0).toUInt64 * 256 + (bytes.getD 2 0).toUInt64
    ((virtualNodes blake3 ["a", "b"]).map Prod.fst).Nodup ∧
      ((HashRing.new blake3 ["a", "b"]).findHealthyUrl blake3 "key" (fun _ => true) = some "a" ∨
        (HashRing.new blake3 ["b"]).findHealthyUrl blake3 "key" (fun _ => true) =
          (HashRing.new blake3 ["a", "b"]).findHealthyUrl blake3 "key" (fun _ => true)) := by
  intro blake3
  -- this hash puts the nodes on the ring in their own order
  have increasing : (((virtualNodes blake3 ["a", "b"]).map Prod.fst).map UInt64.toNat).Pairwise
      (· < ·) := isChain_iff_pairwise.mp (by decide +kernel)
  have distinct : ((virtualNodes blake3 ["a", "b"]).map Prod.fst).Nodup :=
    List.Nodup.of_map UInt64.toNat (increasing.imp Nat.ne_of_lt)
  have moves := findHealthyUrl_moves_few_keys blake3 ["a", "b"] distinct "key" (fun _ => true)
  exact ⟨distinct, (moves.2.2 "a").1 ["b"] (.refl _)⟩

end Engram.Gateway
