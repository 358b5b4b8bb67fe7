import Mathlib.Data.List.Nodup

/-!
# Insertion-ordered dictionaries

A dictionary that iterates in insertion order, as Python's `dict` and
`collections.OrderedDict` do. The key list is duplicate-free by construction,
so a lookup is determined by membership in the item list and every operation
has one lemma that says what it does to lookups.
-/

namespace Engram.Lib

open List

variable {κ ν : Type}

structure OrderedDict (κ ν : Type) where
  items : List (κ × ν)
  keysNodup : (items.map Prod.fst).Nodup

namespace OrderedDict

theorem ext {d d' : OrderedDict κ ν} (same : d.items = d'.items) : d = d' := by
  cases d
  cases d'
  subst same
  rfl

instance [DecidableEq κ] [DecidableEq ν] : DecidableEq (OrderedDict κ ν) := fun d d' =>
  decidable_of_iff (d.items = d'.items) ⟨ext, congrArg items⟩

def keys (d : OrderedDict κ ν) : List κ :=
  d.items.map Prod.fst

def empty : OrderedDict κ ν :=
  ⟨[], List.nodup_nil⟩

def size (d : OrderedDict κ ν) : Nat :=
  d.items.length

/-- `k in d`. -/
instance : Membership κ (OrderedDict κ ν) :=
  ⟨fun d key => key ∈ d.keys⟩

instance [DecidableEq κ] (key : κ) (d : OrderedDict κ ν) : Decidable (key ∈ d) :=
  inferInstanceAs (Decidable (key ∈ d.keys))

/-! ### Deletion

Every deletion keeps a sublist of the items, so the key list stays
duplicate-free.
-/

private theorem keys_nodup_filter {items : List (κ × ν)} (keep : κ × ν → Bool)
    (nodup : (items.map Prod.fst).Nodup) :
    ((items.filter keep).map Prod.fst).Nodup :=
  nodup.sublist (filter_sublist.map Prod.fst)

/-- `del d[k]` when `k` is present, and no change otherwise. -/
def erase [DecidableEq κ] (d : OrderedDict κ ν) (key : κ) : OrderedDict κ ν :=
  ⟨d.items.filter (fun item => item.1 ≠ key), keys_nodup_filter _ d.keysNodup⟩

def eraseValue [DecidableEq ν] (d : OrderedDict κ ν) (value : ν) : OrderedDict κ ν :=
  ⟨d.items.filter (fun item => item.2 ≠ value), keys_nodup_filter _ d.keysNodup⟩

/-- The oldest item, as `popitem(last=False)` picks it. -/
def first? (d : OrderedDict κ ν) : Option (κ × ν) :=
  d.items.head?

/-! ### Lookup and insertion -/

section Lookup

variable [DecidableEq κ] {key other : κ} {value : ν}

/-- `d.get(k)`. -/
def lookup (d : OrderedDict κ ν) (key : κ) : Option ν :=
  (d.items.find? (fun item => item.1 = key)).map Prod.snd

omit [DecidableEq κ] in
private theorem keys_nodup_append {items : List (κ × ν)} {key : κ} (value : ν)
    (absent : key ∉ items.map Prod.fst) (nodup : (items.map Prod.fst).Nodup) :
    ((items ++ [(key, value)]).map Prod.fst).Nodup := by
  rw [map_append]
  refine List.Nodup.append nodup (nodup_singleton _) ?_
  intro other member single
  have same : other = key := by
    simpa using single
  exact absent (same ▸ member)

private theorem keys_replace (items : List (κ × ν)) (key : κ) (value : ν) :
    (items.map (fun item => if item.1 = key then (key, value) else item)).map Prod.fst =
      items.map Prod.fst := by
  rw [map_map]
  refine map_congr_left ?_
  intro item _
  by_cases same : item.1 = key
  · simp [same]
  · simp [same]

private theorem keys_insert_nodup (d : OrderedDict κ ν) (key : κ) (value : ν) :
    ((if key ∈ d then
        d.items.map (fun item => if item.1 = key then (key, value) else item)
      else d.items ++ [(key, value)]).map Prod.fst).Nodup := by
  split
  · rw [keys_replace]
    exact d.keysNodup
  · next absent => exact keys_nodup_append value absent d.keysNodup

/-- `d[k] = v`: a present key keeps its position, a new key goes to the end. -/
def insert (d : OrderedDict κ ν) (key : κ) (value : ν) : OrderedDict κ ν :=
  ⟨if key ∈ d then
      d.items.map (fun item => if item.1 = key then (key, value) else item)
    else d.items ++ [(key, value)],
   keys_insert_nodup d key value⟩

def moveToEnd (d : OrderedDict κ ν) (key : κ) : OrderedDict κ ν :=
  match d.lookup key with
  | none => d
  | some value => (d.erase key).insert key value

theorem lookup_eq_some_iff {d : OrderedDict κ ν} :
    d.lookup key = some value ↔ (key, value) ∈ d.items := by
  constructor
  · intro found
    obtain ⟨item, located, rfl⟩ := Option.map_eq_some_iff.mp found
    have sameKey : item.1 = key := by
      simpa using find?_some located
    rw [← sameKey]
    exact mem_of_find?_eq_some located
  intro member
  have isFound : (d.items.find? (fun item => item.1 = key)).isSome := by
    rw [find?_isSome]
    exact ⟨(key, value), member, by simp⟩
  obtain ⟨item, located⟩ := Option.isSome_iff_exists.mp isFound
  have sameKey : item.1 = key := by
    simpa using find?_some located
  have sameItem : item = (key, value) :=
    inj_on_of_nodup_map d.keysNodup (mem_of_find?_eq_some located) member sameKey
  simp [lookup, located, sameItem]

theorem mem_iff_lookup {d : OrderedDict κ ν} :
    key ∈ d ↔ ∃ value, d.lookup key = some value := by
  constructor
  · intro member
    obtain ⟨⟨key', value⟩, found, rfl⟩ := mem_map.mp member
    exact ⟨value, lookup_eq_some_iff.mpr found⟩
  · rintro ⟨value, found⟩
    exact mem_map.mpr ⟨(key, value), lookup_eq_some_iff.mp found, rfl⟩

theorem not_mem_iff_lookup {d : OrderedDict κ ν} :
    key ∉ d ↔ d.lookup key = none := by
  rw [mem_iff_lookup, Option.eq_none_iff_forall_ne_some]
  push Not
  rfl

@[grind =] theorem mem_iff_ne_none {d : OrderedDict κ ν} {key : κ} :
    key ∈ d ↔ d.lookup key ≠ none := by
  rw [Ne, ← not_mem_iff_lookup, not_not]

theorem mem_of_lookup {d : OrderedDict κ ν} (found : d.lookup key = some value) : key ∈ d :=
  mem_iff_lookup.mpr ⟨value, found⟩

private theorem lookup_congr {d d' : OrderedDict κ ν} {key : κ}
    (same : ∀ value, (key, value) ∈ d.items ↔ (key, value) ∈ d'.items) :
    d.lookup key = d'.lookup key := by
  refine Option.ext ?_
  intro value
  rw [lookup_eq_some_iff, lookup_eq_some_iff]
  exact same value

@[simp, grind =] theorem lookup_empty (key : κ) : (empty : OrderedDict κ ν).lookup key = none :=
  rfl

section

variable (d : OrderedDict κ ν)

include d

@[grind =] theorem lookup_erase (key other : κ) :
    (d.erase key).lookup other = if other = key then none else d.lookup other := by
  split
  · next same =>
    rw [Option.eq_none_iff_forall_ne_some]
    intro value found
    have member := lookup_eq_some_iff.mp found
    simp [erase, same] at member
  · next different =>
    refine lookup_congr ?_
    intro value
    simp [erase, different]

theorem lookup_eraseValue [DecidableEq ν] (value : ν) (key : κ) :
    (d.eraseValue value).lookup key = (d.lookup key).filter (fun found => found ≠ value) := by
  refine Option.ext ?_
  intro found
  rw [lookup_eq_some_iff, Option.filter_eq_some_iff, lookup_eq_some_iff]
  simp [eraseValue]

@[grind =] theorem lookup_insert (key other : κ) (value : ν) :
    (d.insert key value).lookup other = if other = key then some value else d.lookup other := by
  refine Option.ext ?_
  intro found
  rw [lookup_eq_some_iff]
  by_cases present : key ∈ d
  · obtain ⟨old, stored⟩ := mem_iff_lookup.mp present
    have member := lookup_eq_some_iff.mp stored
    simp only [insert, present, if_true, mem_map]
    constructor
    · rintro ⟨item, itemMem, replaced⟩
      by_cases same : item.1 = key
      · simp only [same, if_true, Prod.mk.injEq] at replaced
        simp [replaced.1.symm, replaced.2]
      · simp only [same] at replaced
        subst replaced
        rw [if_neg same]
        exact lookup_eq_some_iff.mpr itemMem
    intro stated
    by_cases same : other = key
    · rw [if_pos same, Option.some.injEq] at stated
      exact ⟨(key, old), member, by simp [same, stated]⟩
    · rw [if_neg same] at stated
      exact ⟨(other, found), lookup_eq_some_iff.mp stated, by simp [same]⟩
  · simp only [insert, present, if_false, mem_append, mem_singleton, Prod.mk.injEq]
    by_cases same : other = key
    · rw [if_pos same, Option.some.injEq]
      constructor
      · rintro (old | ⟨-, fresh⟩)
        · exact absurd (mem_of_lookup (lookup_eq_some_iff.mpr old)) (same ▸ present)
        · exact fresh.symm
      · intro fresh
        exact .inr ⟨same, fresh.symm⟩
    · rw [if_neg same, lookup_eq_some_iff]
      simp [same]

@[simp, grind =] theorem lookup_moveToEnd (key other : κ) :
    (d.moveToEnd key).lookup other = d.lookup other := by
  unfold moveToEnd
  split
  · rfl
  · next value found =>
    rw [lookup_insert, lookup_erase]
    by_cases same : other = key
    · simp [same, found]
    · simp [same]

end

theorem mem_insert {d : OrderedDict κ ν} :
    other ∈ d.insert key value ↔ other = key ∨ other ∈ d := by
  rw [mem_iff_lookup, mem_iff_lookup, lookup_insert]
  by_cases same : other = key
  · simp [same]
  · simp [same]

theorem mem_erase {d : OrderedDict κ ν} :
    other ∈ d.erase key ↔ other ≠ key ∧ other ∈ d := by
  rw [mem_iff_lookup, mem_iff_lookup, lookup_erase]
  by_cases same : other = key
  · simp
  · simp

theorem erase_insert_of_not_mem {d : OrderedDict κ ν} (absent : key ∉ d) (value : ν) :
    (d.insert key value).erase key = d := by
  apply ext
  have others : d.items.filter (fun item => item.1 ≠ key) = d.items := by
    rw [filter_eq_self]
    intro item member
    have different : item.1 ≠ key := by
      rintro rfl
      exact absent (mem_map_of_mem member)
    simpa using different
  rw [erase, insert]
  simp only [if_neg absent, filter_append, others]
  simp

/-! ### Size -/

theorem items_perm_erase {d : OrderedDict κ ν} (found : d.lookup key = some value) :
    d.items.Perm ((key, value) :: (d.erase key).items) := by
  classical
  have member := lookup_eq_some_iff.mp found
  have others : (d.erase key).items = d.items.erase (key, value) := by
    rw [(List.Nodup.of_map _ d.keysNodup).erase_eq_filter]
    refine filter_congr ?_
    intro item held
    have only : item.1 = key → item = (key, value) :=
      inj_on_of_nodup_map d.keysNodup held member
    grind
  rw [others]
  exact perm_cons_erase member

theorem size_erase_of_mem {d : OrderedDict κ ν} (present : key ∈ d) :
    (d.erase key).size + 1 = d.size := by
  obtain ⟨value, found⟩ := mem_iff_lookup.mp present
  exact (items_perm_erase found).length_eq.symm

theorem size_erase_le (d : OrderedDict κ ν) (key : κ) : (d.erase key).size ≤ d.size :=
  length_filter_le _ _

theorem size_insert_le (d : OrderedDict κ ν) (key : κ) (value : ν) :
    (d.insert key value).size ≤ d.size + 1 := by
  simp only [size, insert]
  split
  · simp
  · simp

theorem size_insert_of_not_mem {d : OrderedDict κ ν} (absent : key ∉ d) (value : ν) :
    (d.insert key value).size = d.size + 1 := by
  simp [size, insert, absent]

theorem size_moveToEnd (d : OrderedDict κ ν) (key : κ) :
    (d.moveToEnd key).size ≤ d.size := by
  unfold moveToEnd
  split
  · exact Nat.le_refl _
  · next value found =>
    have shrunk := size_erase_of_mem (mem_of_lookup found)
    have grown := size_insert_le (d.erase key) key value
    omega

end Lookup

theorem first?_mem [DecidableEq κ] {d : OrderedDict κ ν} {key : κ} {value : ν} (head : d.first? = some (key, value)) :
    d.lookup key = some value :=
  lookup_eq_some_iff.mpr (mem_of_head? head)

theorem items_of_first? [DecidableEq κ] {d : OrderedDict κ ν} {key : κ} {value : ν}
    (head : d.first? = some (key, value)) : d.items = (key, value) :: (d.erase key).items := by
  obtain ⟨rest, shape⟩ := head?_eq_some_iff.mp head
  have distinct := d.keysNodup
  rw [shape, map_cons, nodup_cons] at distinct
  have kept : rest.filter (·.1 ≠ key) = rest := filter_eq_self.mpr fun item member =>
    decide_eq_true fun same => distinct.1 (mem_map.mpr ⟨item, member, same⟩)
  rw [shape, erase, List.cons.injEq]
  refine ⟨rfl, ?_⟩
  simpa [shape] using kept.symm

/-! ### The newest item -/

def EndsWith (d : OrderedDict κ ν) (key : κ) (value : ν) : Prop :=
  ∃ front, d.items = front ++ [(key, value)]

section EndsWith

variable [DecidableEq κ] {d : OrderedDict κ ν} {key other : κ} {value : ν}

theorem EndsWith.lookup (last : d.EndsWith key value) : d.lookup key = some value := by
  obtain ⟨front, shape⟩ := last
  rw [lookup_eq_some_iff, shape]
  simp

theorem endsWith_insert (absent : key ∉ d) (value : ν) :
    (d.insert key value).EndsWith key value :=
  ⟨d.items, by simp [insert, absent]⟩

theorem EndsWith.erase (last : d.EndsWith key value) (different : key ≠ other) :
    (d.erase other).EndsWith key value := by
  obtain ⟨front, shape⟩ := last
  refine ⟨front.filter (fun item => item.1 ≠ other), ?_⟩
  simp [OrderedDict.erase, shape, different]

omit [DecidableEq κ] in
theorem EndsWith.first?_ne (last : d.EndsWith key value) (long : 1 < d.size) {oldest : ν}
    (head : d.first? = some (other, oldest)) : key ≠ other := by
  obtain ⟨front, shape⟩ := last
  rw [size, shape] at long
  rw [first?, shape] at head
  have nodup := d.keysNodup
  rw [shape] at nodup
  cases front with
  | nil => simp at long
  | cons item front =>
    simp only [cons_append, head?_cons, Option.some.injEq] at head
    subst head
    simp only [cons_append, map_cons, nodup_cons, map_append, map_nil,
      mem_append, mem_singleton, not_or] at nodup
    exact fun same => nodup.1.2 same.symm

end EndsWith

end OrderedDict

end Engram.Lib
