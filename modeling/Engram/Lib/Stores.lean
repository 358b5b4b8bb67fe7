import Mathlib.Data.List.Nodup

/-!
# Stores to a memory

Several programs store to one memory. As long as no address is stored to twice, the order of the
stores does not matter: the memory holds what was stored at each address.
-/

namespace Engram.Lib

open List Function

variable {α : Type} {mem : Nat → α} {stores : List (Nat × α)}

/-- A memory after some stores, one after the other. -/
def applyStores (mem : Nat → α) (stores : List (Nat × α)) : Nat → α :=
  stores.foldl (fun mem store => Function.update mem store.1 store.2) mem

def storeAt (start : Nat) (xs : List α) : List (Nat × α) :=
  (List.range' start xs.length).zip xs

theorem map_fst_storeAt (start : Nat) (xs : List α) :
    (storeAt start xs).map Prod.fst = List.range' start xs.length := by
  rw [storeAt, map_fst_zip]
  exact Nat.le_of_eq length_range'

theorem storeAt_append (start : Nat) (xs ys : List α) :
    storeAt start (xs ++ ys) = storeAt start xs ++ storeAt (start + xs.length) ys := by
  rw [storeAt, storeAt, storeAt, length_append, ← range'_append_1, zip_append]
  rw [length_range']

theorem storeAt_map_range (start n : Nat) (f : Nat → α) :
    storeAt start ((List.range n).map f) = (List.range n).map fun k => (start + k, f k) := by
  rw [storeAt, length_map, length_range, range'_eq_map_range, zip_map']

theorem map_range_getD {l : List α} {d : α} {start n : Nat} (inside : start + n ≤ l.length) :
    (List.range n).map (fun k => l.getD (start + k) d) = (l.drop start).take n := by
  apply ext_getElem
  · rw [length_map, length_range, length_take, length_drop]
    omega
  · intro k _ isPlace
    rw [getElem_map, getElem_range, getElem_take, getElem_drop,
      getD_eq_getElem?_getD, getElem?_eq_getElem, Option.getD_some]

section Parts

variable {start : Nat → Nat} {xs : Nat → List α} {n : Nat}

theorem flatMap_storeAt (first : start 0 = 0)
    (next : ∀ i < n, start (i + 1) = start i + (xs i).length) :
    (List.range n).flatMap (fun i => storeAt (start i) (xs i)) =
      storeAt 0 ((List.range n).flatMap xs) ∧ ((List.range n).flatMap xs).length = start n := by
  induction n with
  | zero => exact ⟨rfl, first.symm⟩
  | succ n ih =>
    obtain ⟨stored, length⟩ := ih fun i inside => next i (Nat.lt_succ_of_lt inside)
    simp only [range_succ, flatMap_append, flatMap_cons, flatMap_nil, append_nil]
    rw [storeAt_append, stored, Nat.zero_add, length_append, length, next n (Nat.lt_succ_self n)]
    exact ⟨rfl, rfl⟩

end Parts

theorem applyStores_of_notMem {a : Nat} (absent : a ∉ stores.map Prod.fst) :
    applyStores mem stores a = mem a := by
  induction stores generalizing mem with
  | nil => rfl
  | cons store stores ih =>
    rw [map_cons, mem_cons, not_or] at absent
    rw [applyStores, foldl_cons, ← applyStores, ih absent.2, update_of_ne absent.1]

theorem applyStores_of_mem (distinct : (stores.map Prod.fst).Nodup) {a : Nat} {x : α}
    (member : (a, x) ∈ stores) :
    applyStores mem stores a = x := by
  induction stores generalizing mem with
  | nil => cases member
  | cons store stores ih =>
    rw [map_cons, nodup_cons] at distinct
    rw [applyStores, foldl_cons, ← applyStores]
    rcases mem_cons.mp member with rfl | later
    · rw [applyStores_of_notMem distinct.1, update_self]
    · exact ih distinct.2 later

theorem map_applyStores_zip {keys : List Nat} {values : List α} (distinct : keys.Nodup)
    (length : keys.length = values.length) :
    keys.map (applyStores mem (keys.zip values)) = values := by
  have isKeys : (keys.zip values).map Prod.fst = keys := map_fst_zip (Nat.le_of_eq length)
  apply ext_getElem
  · rw [length_map, length]
  intro k _ inside
  rw [getElem_map]
  apply applyStores_of_mem (isKeys.symm ▸ distinct)
  refine mem_iff_getElem.mpr ⟨k, ?_, getElem_zip⟩
  rw [length_zip, length, Nat.min_self]
  exact inside

theorem applyStores_zip_map (mem : Nat → α) (keys : List Nat) (f : Nat → α) (a : Nat) :
    applyStores mem (keys.zip (keys.map f)) a = if a ∈ keys then f a else mem a := by
  induction keys generalizing mem with
  | nil => rfl
  | cons key keys ih =>
    rw [map_cons, zip_cons_cons, applyStores, foldl_cons, ← applyStores, ih]
    by_cases later : a ∈ keys
    · rw [if_pos later, if_pos (mem_cons_of_mem _ later)]
    · rw [if_neg later]
      by_cases here : a = key
      · rw [here, update_self, if_pos mem_cons_self]
      · rw [update_of_ne here, if_neg (not_mem_cons_of_ne_of_not_mem here later)]

/-- In whatever order the elements of a sequence are stored, they are there afterwards. -/
theorem map_applyStores_of_perm {xs : List α} (perm : stores.Perm (storeAt 0 xs)) :
    (List.range xs.length).map (applyStores mem stores) = xs := by
  have distinct : (stores.map Prod.fst).Nodup := by
    rw [(perm.map Prod.fst).nodup_iff, map_fst_storeAt]
    exact nodup_range'
  apply ext_getElem
  · rw [length_map, length_range]
  intro k _ inside
  rw [getElem_map, getElem_range]
  apply applyStores_of_mem distinct
  rw [perm.mem_iff, storeAt]
  refine mem_iff_getElem.mpr ⟨k, ?_, ?_⟩
  · rw [length_zip, length_range', Nat.min_self]
    exact inside
  · rw [getElem_zip, getElem_range', Nat.one_mul, Nat.zero_add]

end Engram.Lib
