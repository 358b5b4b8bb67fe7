import Mathlib.Data.List.Infix

/-!
# Removing the occurrences of a marker

`text.replace(marker, "")` on lists: occurrences are found from the left, without
overlap. Where a text is a name with a marker in front or behind, removing the
marker gives the name back as long as the name does not contain the marker itself.
-/

namespace Engram.Lib

open List

variable {α : Type} [DecidableEq α]

/-- The scan; the next `skip` elements belong to the occurrence found last. -/
def removeScan (marker : List α) : Nat → List α → List α
  | _, [] => []
  | 0, c :: cs =>
    if marker <+: c :: cs then removeScan marker (marker.length - 1) cs
    else c :: removeScan marker 0 cs
  | skip + 1, _ :: cs => removeScan marker skip cs

def removeAll (marker text : List α) : List α :=
  removeScan marker 0 text

theorem removeScan_eq_removeAll_drop (marker : List α) (skip : Nat) (text : List α) :
    removeScan marker skip text = removeAll marker (text.drop skip) := by
  induction text generalizing skip with
  | nil => simp [removeScan, removeAll]
  | cons c cs ih =>
    cases skip with
    | zero => rfl
    | succ skip => rw [removeScan, ih, drop_succ_cons]

theorem removeAll_append_left (head : α) (tail text : List α) :
    removeAll (head :: tail) (head :: tail ++ text) = removeAll (head :: tail) text := by
  have found : head :: tail <+: head :: (tail ++ text) :=
    prefix_append (head :: tail) text
  rw [removeAll, cons_append, removeScan, removeScan_eq_removeAll_drop]
  simp

theorem removeAll_of_not_infix {marker text : List α} (absent : ¬ marker <:+: text) :
    removeAll marker text = text := by
  induction text with
  | nil => rfl
  | cons c cs ih =>
    have notHere : ¬ marker <+: c :: cs := fun here => absent here.isInfix
    have notLater : ¬ marker <:+: cs :=
      fun later => absent (later.trans (suffix_cons c cs).isInfix)
    rw [removeAll, removeScan, if_neg notHere]
    exact congrArg _ (ih notLater)

omit [DecidableEq α] in
/-- A marker whose first element does not come back in it cannot begin before the end of
    a text that does not contain it and reach into a copy of the marker behind. -/
private theorem not_prefix_append {head : α} {tail : List α} (fresh : head ∉ tail) {c : α}
    {cs : List α} (absent : ¬ head :: tail <:+: c :: cs) :
    ¬ head :: tail <+: c :: cs ++ head :: tail := by
  intro starts
  rw [cons_append, cons_prefix_cons] at starts
  obtain ⟨sameHead, rest⟩ := starts
  rcases Nat.lt_or_ge cs.length tail.length with long | short
  · -- the head of the copy behind would lie in the tail
    have reaches : cs ++ [head] <+: tail := by
      refine prefix_of_prefix_length_le ⟨tail, by simp⟩ rest ?_
      rw [length_append, length_singleton]
      omega
    exact fresh (reaches.subset (by simp))
  · have inside : tail <+: cs :=
      prefix_of_prefix_length_le rest (prefix_append cs _) short
    refine absent (List.IsPrefix.isInfix ?_)
    rw [← sameHead]
    exact cons_prefix_cons.mpr ⟨rfl, inside⟩

theorem removeAll_append_right {head : α} {tail : List α} (fresh : head ∉ tail) {text : List α}
    (absent : ¬ head :: tail <:+: text) :
    removeAll (head :: tail) (text ++ head :: tail) = text := by
  induction text with
  | nil =>
    have whole := removeAll_append_left head tail []
    rw [append_nil] at whole
    rw [nil_append, whole]
    rfl
  | cons c cs ih =>
    have notLater : ¬ head :: tail <:+: cs :=
      fun later => absent (later.trans (suffix_cons c cs).isInfix)
    rw [removeAll, cons_append, removeScan, if_neg (by simpa using not_prefix_append fresh absent)]
    exact congrArg _ (ih notLater)

end Engram.Lib
