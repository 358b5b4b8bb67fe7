import Mathlib.Data.List.Basic

/-!
# An unbounded queue with waiting readers

A reader takes the oldest item, or lines up when there is none. A new item wakes the
reader that has waited longest; a woken reader takes its item only when it runs, in the
order of the wake-ups, and lines up again if a newcomer has been faster.
-/

namespace Engram.Lib

open List

structure AsyncQueue (α ι : Type) where
  items : List α := []
  getters : List ι := []
  /-- readers that have been woken and have not run yet -/
  woken : List ι := []

namespace AsyncQueue

variable {α ι : Type} {q : AsyncQueue α ι}

/-- The readers, in the order in which they are served. -/
def line (q : AsyncQueue α ι) : List ι :=
  q.woken ++ q.getters

def get (q : AsyncQueue α ι) (reader : ι) : Option α × AsyncQueue α ι :=
  match q.items with
  | item :: items => (some item, { q with items })
  | [] => (none, { q with getters := q.getters ++ [reader] })

def putNowait (q : AsyncQueue α ι) (item : α) : AsyncQueue α ι :=
  match q.getters with
  | [] => { q with items := q.items ++ [item] }
  | reader :: getters => { items := q.items ++ [item], getters, woken := q.woken ++ [reader] }

/-- The first woken reader runs. -/
def resume (q : AsyncQueue α ι) : Option (ι × Option α × AsyncQueue α ι) :=
  match q.woken with
  | [] => none
  | reader :: woken => some (reader, { q with woken }.get reader)

structure Balanced (q : AsyncQueue α ι) : Prop where
  served : q.woken.length ≤ q.items.length
  waiting : q.getters = [] ∨ q.items.length = q.woken.length

theorem balanced_empty : ({} : AsyncQueue α ι).Balanced :=
  ⟨Nat.le_refl _, .inl rfl⟩

@[simp] theorem putNowait_items (q : AsyncQueue α ι) (item : α) :
    (q.putNowait item).items = q.items ++ [item] := by
  unfold putNowait
  split
  · rfl
  · rfl

@[simp] theorem putNowait_line (q : AsyncQueue α ι) (item : α) :
    (q.putNowait item).line = q.line := by
  unfold putNowait line
  split
  · rfl
  · next listed => rw [listed, append_assoc, singleton_append]

theorem Balanced.putNowait (balanced : q.Balanced) (item : α) : (q.putNowait item).Balanced := by
  obtain ⟨served, waiting⟩ := balanced
  unfold AsyncQueue.putNowait
  split
  · next empty => exact ⟨by simp only [length_append]; omega, .inl empty⟩
  · next reader getters listed =>
    -- one more item, one more reader woken for it
    have exact : q.items.length = q.woken.length := waiting.resolve_left (by simp [listed])
    constructor
    · simp only [length_append, length_singleton]
      omega
    · right
      simp only [length_append, length_singleton]
      omega

theorem Balanced.get_of_items (balanced : q.Balanced) (settled : q.woken = []) {item : α}
    {items : List α} (listed : q.items = item :: items) (reader : ι) :
    q.line = [] ∧ q.get reader = (some item, { q with items }) ∧
      ({ q with items } : AsyncQueue α ι).Balanced := by
  have nobody : q.getters = [] := by
    rcases balanced.waiting with none | same
    · exact none
    · simp [listed, settled] at same
  refine ⟨by simp [line, settled, nobody], by simp [AsyncQueue.get, listed], ?_, .inl nobody⟩
  simp [settled]

theorem Balanced.get_of_empty (balanced : q.Balanced) (empty : q.items = []) (reader : ι) :
    q.get reader = (none, { q with getters := q.getters ++ [reader] }) ∧
      ({ q with getters := q.getters ++ [reader] } : AsyncQueue α ι).Balanced := by
  have settled : q.woken.length = 0 := by
    have served := balanced.served
    rw [empty] at served
    exact Nat.le_zero.mp served
  refine ⟨by simp [AsyncQueue.get, empty], balanced.served, .inr ?_⟩
  rw [empty, settled]
  rfl

theorem Balanced.resume (balanced : q.Balanced) {reader : ι} {woken : List ι}
    (first : q.woken = reader :: woken) :
    ∃ item items, q.items = item :: items ∧
      q.resume = some (reader, some item, { q with woken, items }) ∧
      ({ q with woken, items } : AsyncQueue α ι).Balanced := by
  obtain ⟨served, waiting⟩ := balanced
  rw [first] at served waiting
  cases listed : q.items with
  | nil => simp [listed] at served
  | cons item items =>
    refine ⟨item, items, rfl, ?_, ?_, ?_⟩
    · simp [AsyncQueue.resume, AsyncQueue.get, first, listed]
    · simpa [listed] using served
    · simpa [listed] using waiting

end AsyncQueue

end Engram.Lib
