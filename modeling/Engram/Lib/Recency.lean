import Mathlib.Data.List.Perm.Basic
import Mathlib.Data.List.Nodup

/-!
# Lists ordered by recency

A list without repetitions whose head was used most recently, as a doubly linked list
between two sentinels keeps it. A search starts at the least recent end and goes towards
the head; one that starts at a member looks at what stands before it.
-/

namespace Engram.Lib.Recency

open List

variable {α : Type} [DecidableEq α] {l : List α} {p : α → Bool}

def addAfter : Option α → α → List α → List α
  | none, x, l => x :: l
  | some _, x, [] => [x]
  | some prev, x, y :: ys => if y = prev then y :: x :: ys else y :: addAfter (some prev) x ys

theorem addAfter_perm (prev : Option α) (x : α) (l : List α) :
    (addAfter prev x l).Perm (x :: l) := by
  cases prev with
  | none => rw [addAfter]
  | some prev =>
    induction l with
    | nil => rw [addAfter]
    | cons y ys ih =>
      rw [addAfter]
      split
      · exact .swap x y ys
      · exact (ih.cons y).trans (.swap x y ys)

theorem addAfter_erase_perm (prev : Option α) {x : α} (member : x ∈ l) :
    (addAfter prev x (l.erase x)).Perm l :=
  (addAfter_perm prev x (l.erase x)).trans (perm_cons_erase member).symm

/-! ### Searches -/

omit [DecidableEq α] in
/-- The least recent element with the property. -/
def oldest (p : α → Bool) (l : List α) : Option α :=
  l.reverse.find? p

/-- The first element with the property that is more recent than `x`. -/
def newerThan (p : α → Bool) (l : List α) (x : α) : Option α :=
  oldest p (l.takeWhile (· ≠ x))

omit [DecidableEq α] in
theorem oldest_eq (p : α → Bool) (l : List α) : oldest p l = (l.filter p).getLast? := by
  rw [oldest, ← head?_filter, filter_reverse, head?_reverse]

omit [DecidableEq α] in
theorem oldest_some {x : α} (found : oldest p l = some x) :
    x ∈ l ∧ p x = true := by
  rw [oldest_eq] at found
  exact mem_filter.mp (mem_of_getLast? found)

omit [DecidableEq α] in
theorem oldest_none_iff :
    oldest p l = none ↔ ∀ x ∈ l, p x = false := by
  simp [oldest]

/-- Once the element found first is gone, the search that started behind it gives what a
    new search gives: here `rest` is what the new search has to choose from. -/
theorem newerThan_eq_oldest {q : α → Bool} {rest : List α} {x : α} (distinct : l.Nodup)
    (found : oldest p l = some x) (remain : rest.filter q = (l.filter p).erase x) :
    newerThan p l x = oldest q rest := by
  obtain ⟨member, has⟩ := oldest_some found
  obtain ⟨front, back, rfl⟩ := append_of_mem member
  have notFront : x ∉ front := fun inFront =>
    (nodup_append.mp distinct).2.2 x inFront x mem_cons_self rfl
  have notBack : x ∉ back := (nodup_cons.mp (nodup_append.mp distinct).2.1).1
  have before : (front ++ x :: back).takeWhile (· ≠ x) = front := by
    rw [takeWhile_append_of_pos]
    · simp
    · intro y member
      simpa using fun same : y = x => notFront (same ▸ member)
  -- nothing behind `x` has the property, or it would have been found first
  have noneBehind : back.filter p = [] := by
    rw [oldest_eq, filter_append, filter_cons_of_pos has, getLast?_append] at found
    by_contra some
    obtain ⟨y, isLast⟩ : ∃ y, (back.filter p).getLast? = Option.some y :=
      ⟨_, getLast?_eq_some_getLast some⟩
    rw [getLast?_cons, isLast] at found
    have same : y = x := by simpa using found
    exact notBack (mem_of_mem_filter (same ▸ mem_of_getLast? isLast))
  rw [newerThan, before, oldest_eq, oldest_eq, remain, filter_append,
    filter_cons_of_pos has, noneBehind, erase_append_right _ (fun inFront =>
      notFront (mem_of_mem_filter inFront))]
  simp

end Engram.Lib.Recency
