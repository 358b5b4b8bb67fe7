import Mathlib.Data.List.Basic

/-!
# Ownership of locations

A store hands out locations to owners. An operation on the store and on some owners is a transfer:
the number of owners of every location stays the same, and a location that none of them owns is
not written. The rules chain transfers and put uninvolved owners beside them.
-/

namespace Engram.Lib

/-- How often each location is owned among those that take part in an operation,
    and what the locations hold. -/
structure Holding (ι β : Type) where
  count : ι → Nat
  content : ι → β

namespace Holding

variable {ι β : Type}

structure Transfer (before after : Holding ι β) : Prop where
  count : ∀ i, after.count i = before.count i
  frame : ∀ i, before.count i = 0 → after.content i = before.content i

theorem Transfer.refl (holding : Holding ι β) : Transfer holding holding :=
  ⟨fun _ => rfl, fun _ _ => rfl⟩

theorem Transfer.trans {first second third : Holding ι β} (before : Transfer first second)
    (after : Transfer second third) : Transfer first third where
  count := fun i => (after.count i).trans (before.count i)
  frame := by
    intro i unowned
    rw [after.frame i ((before.count i).trans unowned), before.frame i unowned]

/-- The same locations seen together with owners that do not take part. -/
def beside (holding : Holding ι β) (others : ι → Nat) : Holding ι β where
  count := fun i => holding.count i + others i
  content := holding.content

theorem Transfer.beside {before after : Holding ι β} (transfer : Transfer before after)
    (others : ι → Nat) : Transfer (before.beside others) (after.beside others) where
  count := fun i => congrArg (· + others i) (transfer.count i)
  frame := fun i unowned => transfer.frame i (Nat.eq_zero_of_add_eq_zero_right unowned)

end Holding

end Engram.Lib
