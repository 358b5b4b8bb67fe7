import Mathlib.Data.List.Dedup
import Mathlib.Data.List.TakeDrop

/-!
# Blocks of locations

A store hands out its locations in blocks of a fixed width: block `b` holds the locations from
`b * width` on. A sequence that grows at its end fills its blocks one after the other; all of
them are full but for the last one.
-/

namespace Engram.Lib

open List

variable {width : Nat}

def block (width b : Nat) : List Nat :=
  (List.range width).map (b * width + ·)

def blocks (width : Nat) (bs : List Nat) : List Nat :=
  bs.flatMap (block width)

theorem length_block (width b : Nat) : (block width b).length = width := by
  rw [block, length_map, length_range]

@[simp] theorem blocks_nil : blocks width [] = [] := rfl

theorem blocks_cons (b : Nat) (bs : List Nat) :
    blocks width (b :: bs) = block width b ++ blocks width bs :=
  flatMap_cons

theorem blocks_append (bs bs' : List Nat) :
    blocks width (bs ++ bs') = blocks width bs ++ blocks width bs' :=
  flatMap_append

theorem blocks_one (bs : List Nat) : blocks 1 bs = bs := by
  induction bs with
  | nil => rfl
  | cons b bs ih =>
    rw [blocks_cons, ih]
    simp [block]

theorem length_blocks (width : Nat) (bs : List Nat) :
    (blocks width bs).length = bs.length * width := by
  induction bs with
  | nil => rw [blocks_nil, length_nil, Nat.zero_mul]
  | cons b bs ih =>
    rw [blocks_cons, length_append, length_block, ih, length_cons, Nat.succ_mul, Nat.add_comm]

theorem take_blocks (bs : List Nat) (k : Nat) :
    (blocks width bs).take (k * width) = blocks width (bs.take k) := by
  rcases Nat.le_total k bs.length with inside | beyond
  · have length : (blocks width (bs.take k)).length = k * width := by
      rw [length_blocks, length_take, Nat.min_eq_left inside]
    have parts : blocks width (bs.take k ++ bs.drop k) = _ := blocks_append ..
    rw [take_append_drop] at parts
    rw [parts, ← length, take_left]
  · rw [take_of_length_le beyond, take_of_length_le]
    rw [length_blocks]
    exact Nat.mul_le_mul_right _ beyond

theorem drop_blocks (bs : List Nat) (k : Nat) :
    (blocks width bs).drop (k * width) = blocks width (bs.drop k) := by
  have parts : blocks width (bs.take k ++ bs.drop k) = _ := blocks_append ..
  rw [take_append_drop, ← take_blocks] at parts
  exact append_cancel_left ((take_append_drop (k * width) _).trans parts)

theorem blocks_range (n : Nat) : blocks width (List.range n) = List.range (n * width) := by
  induction n with
  | zero => rw [Nat.zero_mul]; rfl
  | succ n ih =>
    rw [range_succ, blocks_append, ih, blocks_cons, blocks_nil, append_nil, block,
      Nat.succ_mul, range_add]

section

variable (positive : 0 < width)

include positive

theorem map_range_mul (n : Nat) (f : Nat → Nat) :
    (List.range (n * width)).map (fun offset => f (offset / width) * width + offset % width) =
      blocks width ((List.range n).map f) := by
  rw [← blocks_range, blocks, blocks, map_flatMap, flatMap_map]
  congr 1
  funext b
  rw [block, map_map]
  apply map_congr_left
  intro offset inside
  rw [mem_range] at inside
  rw [Function.comp_apply, Nat.add_comm (b * width), Nat.add_mul_div_right _ _ positive,
    Nat.add_mul_mod_self_right, Nat.div_eq_of_lt inside, Nat.mod_eq_of_lt inside, Nat.zero_add]

theorem getElem?_blocks (bs : List Nat) (k : Nat) :
    (blocks width bs)[k]? = bs[k / width]?.map (· * width + k % width) := by
  induction bs generalizing k with
  | nil => rfl
  | cons b bs ih =>
    rw [blocks_cons]
    rcases Nat.lt_or_ge k width with inside | beyond
    · rw [getElem?_append_left (by rwa [length_block]), Nat.div_eq_of_lt inside,
        Nat.mod_eq_of_lt inside, block, getElem?_map, getElem?_range inside]
      rfl
    · rw [getElem?_append_right (by rwa [length_block]), length_block, ih,
        ← Nat.mod_eq_sub_mod beyond, Nat.div_eq_sub_div positive beyond, getElem?_cons_succ]

theorem count_block (b i : Nat) :
    (block width b).count i = if b = i / width then 1 else 0 := by
  have distinct : (block width b).Nodup :=
    nodup_range.map fun _ _ same => Nat.add_left_cancel same
  rw [distinct.count]
  congr 1
  rw [block, mem_map, eq_iff_iff]
  constructor
  · rintro ⟨offset, inside, rfl⟩
    rw [Nat.add_comm, Nat.add_mul_div_right _ _ positive,
      Nat.div_eq_of_lt (mem_range.mp inside), Nat.zero_add]
  · rintro rfl
    exact ⟨i % width, mem_range.mpr (Nat.mod_lt _ positive), Nat.div_add_mod' i width⟩

theorem count_blocks (bs : List Nat) (i : Nat) :
    (blocks width bs).count i = bs.count (i / width) := by
  induction bs with
  | nil => rfl
  | cons b bs ih =>
    rw [blocks_cons, count_append, count_block positive, ih, count_cons, Nat.add_comm]
    simp only [beq_iff_eq]

theorem nodup_blocks {bs : List Nat} (distinct : bs.Nodup) :
    (blocks width bs).Nodup := by
  rw [nodup_iff_count_le_one]
  intro i
  rw [count_blocks positive]
  exact nodup_iff_count_le_one.mp distinct _

end

/-- The sequence `xs` lies in the blocks `bs`, which are different, in their order, and reaches
    into the last one. -/
structure Laid (width : Nat) (bs xs : List Nat) : Prop where
  distinct : bs.Nodup
  within : xs <+: blocks width bs
  tight : bs.length * width < xs.length + width

namespace Laid

variable {bs xs : List Nat}

theorem nil (positive : 0 < width) : Laid width [] [] :=
  ⟨nodup_nil, nil_prefix, by simpa using positive⟩

theorem eq_nil (laid : Laid width bs []) : bs = [] := by
  have tight := laid.tight
  rw [length_nil] at tight
  by_contra some
  have one : 1 * width ≤ bs.length * width :=
    Nat.mul_le_mul_right _ (length_pos_iff.mpr some)
  omega

theorem whole (positive : 0 < width) (distinct : bs.Nodup) : Laid width bs (blocks width bs) :=
  ⟨distinct, prefix_rfl, by rw [length_blocks]; omega⟩

section

variable (laid : Laid width bs xs)

include laid

theorem length_le : xs.length ≤ bs.length * width := by
  rw [← length_blocks]
  exact laid.within.length_le

theorem nodup (positive : 0 < width) : xs.Nodup :=
  laid.within.sublist.nodup (nodup_blocks positive laid.distinct)

theorem take {k : Nat} (inside : k * width ≤ xs.length) :
    xs.take (k * width) = blocks width (bs.take k) := by
  obtain ⟨rest, isWhole⟩ := laid.within
  rw [← take_blocks, ← isWhole, take_append_of_le_length inside]

theorem drop {k : Nat} (inside : k * width ≤ xs.length) :
    Laid width (bs.drop k) (xs.drop (k * width)) where
  distinct := laid.distinct.sublist (drop_sublist ..)
  within := by
    obtain ⟨rest, isWhole⟩ := laid.within
    refine ⟨rest, ?_⟩
    rw [← drop_blocks, ← isWhole, drop_append_of_le_length inside]
  tight := by
    have tight := laid.tight
    have fits := laid.length_le
    rw [length_drop, length_drop, Nat.sub_mul]
    omega

theorem take_part {n k : Nat} (inside : n ≤ xs.length)
    (covers : n ≤ k * width) (tight : k * width < n + width) :
    Laid width (bs.take k) (xs.take n) where
  distinct := laid.distinct.sublist (take_sublist ..)
  within := by
    obtain ⟨rest, isWhole⟩ := laid.within
    rw [← take_blocks, ← isWhole, ← take_append_of_le_length inside]
    exact take_prefix_take_left covers
  tight := by
    have fewer : (bs.take k).length * width ≤ k * width :=
      Nat.mul_le_mul_right _ (length_take_le ..)
    have length : (xs.take n).length = n := length_take_of_le inside
    omega

theorem eq_blocks (aligned : width ∣ xs.length) :
    xs = blocks width bs := by
  obtain ⟨k, length⟩ := aligned
  have le := laid.length_le
  have tight := laid.tight
  have same : xs.length = bs.length * width := by
    rw [length, Nat.mul_comm width k] at le tight ⊢
    rw [← Nat.succ_mul] at tight
    have upper := Nat.lt_of_mul_lt_mul_right tight
    exact Nat.le_antisymm le (Nat.mul_le_mul_right _ (by omega))
  rw [← length_blocks] at same
  exact laid.within.eq_of_length same

theorem mem_iff (positive : 0 < width) {b : Nat} :
    b ∈ bs ↔ b ∈ xs.map (· / width) := by
  constructor
  · intro member
    obtain ⟨k, inside, isBlock⟩ := getElem_of_mem member
    have tight := laid.tight
    -- the first location of the block is in the sequence
    have reached : k * width < xs.length := by
      have steps : (k + 1) * width ≤ bs.length * width := Nat.mul_le_mul_right _ inside
      rw [Nat.succ_mul] at steps
      omega
    have rest := laid.drop (Nat.le_of_lt reached)
    rw [drop_eq_getElem_cons inside, isBlock] at rest
    have nonempty : xs.drop (k * width) ≠ [] := ne_nil_of_length_pos (by
      rw [length_drop]
      omega)
    obtain ⟨x, tail, isCons⟩ := exists_cons_of_ne_nil nonempty
    have first := rest.within
    rw [isCons, blocks_cons] at first
    have isFirst : x = b * width := by
      obtain ⟨n, rfl⟩ : ∃ n, width = n + 1 := ⟨width - 1, by omega⟩
      rw [block, range_succ_eq_map, map_cons, cons_append, cons_prefix_cons] at first
      rw [first.1, Nat.add_zero]
    refine mem_map.mpr ⟨x, ?_, ?_⟩
    · apply mem_of_mem_drop (i := k * width)
      rw [isCons]
      exact mem_cons_self
    · rw [isFirst, Nat.mul_div_cancel _ positive]
  · intro touched
    obtain ⟨x, member, rfl⟩ := mem_map.mp touched
    have inside := laid.within.subset member
    rw [← count_pos_iff, count_blocks positive] at inside
    exact count_pos_iff.mp inside

theorem dedup_perm (positive : 0 < width) :
    (xs.map (· / width)).dedup.Perm bs := by
  apply (perm_ext_iff_of_nodup (nodup_dedup _) laid.distinct).mpr
  intro b
  rw [mem_dedup, laid.mem_iff positive]

theorem left {last : Nat} (isLast : xs.getLast? = some last) :
    (blocks width bs).drop xs.length =
      (List.range (bs.length * width - xs.length)).map (last + 1 + ·) := by
  obtain ⟨front, rfl⟩ : ∃ front, xs = front ++ [last] := getLast?_eq_some_iff.mp isLast
  have tight := laid.tight
  have fits := laid.length_le
  obtain ⟨init, b, rfl⟩ : ∃ init b, bs = init ++ [b] := by
    refine ⟨bs.dropLast, bs.getLast ?_, (dropLast_append_getLast _).symm⟩
    rintro rfl
    rw [length_append, length_nil, Nat.zero_mul] at fits
    exact absurd fits (Nat.not_succ_le_zero _)
  simp only [length_append, length_singleton, Nat.succ_mul] at tight fits ⊢
  obtain ⟨m, isLength⟩ : ∃ m, front.length = init.length * width + m :=
    ⟨front.length - init.length * width, by omega⟩
  have isLocation : last = b * width + m := by
    obtain ⟨rest, whole⟩ := laid.within
    have there : (front ++ [last] ++ rest)[front.length]? = some last := by
      rw [append_assoc, getElem?_append_right (Nat.le_refl _), Nat.sub_self]
      rfl
    rw [whole, blocks_append, getElem?_append_right (by rw [length_blocks]; omega),
      length_blocks, isLength, Nat.add_sub_cancel_left, blocks_cons, blocks_nil, append_nil,
      block, getElem?_map, getElem?_range (by omega)] at there
    exact (Option.some.inj there).symm
  have skipped : front.length + 1 = (blocks width init).length + (m + 1) := by
    rw [length_blocks]
    omega
  rw [skipped, blocks_append, drop_append, drop_of_length_le (by omega), Nat.add_sub_cancel_left,
    blocks_cons, blocks_nil, append_nil, block, ← map_drop,
    range_eq_range', drop_range', range'_eq_map_range, map_map, length_blocks,
    show init.length * width + width - (init.length * width + (m + 1)) = width - (m + 1) by omega]
  apply map_congr_left
  intro offset _
  simp only [Function.comp_apply]
  omega

theorem next {r : Nat} (inside : xs.length + r ≤ bs.length * width) :
    xs ++ (List.range r).map (xs.getLast?.getD 0 + 1 + ·) <+: blocks width bs := by
  cases isLast : xs.getLast? with
  | none =>
    have empty : xs = [] := getLast?_eq_none_iff.mp isLast
    subst empty
    rw [laid.eq_nil, length_nil, Nat.zero_add, Nat.zero_mul, Nat.le_zero] at inside
    rw [inside]
    exact nil_prefix
  | some last =>
    have rest := laid.left isLast
    obtain ⟨tail, whole⟩ := laid.within
    have isTail : tail = (blocks width bs).drop xs.length := by
      rw [← whole, drop_left]
    have first : (range r).map (last + 1 + ·) = tail.take r := by
      rw [isTail, rest, ← map_take, take_range, Nat.min_eq_left (by omega)]
    rw [Option.getD_some, first, ← whole]
    exact (prefix_append_right_inj xs).mpr <| take_prefix ..

end

end Laid

end Engram.Lib
