import Mathlib.Data.List.Infix

/-!
# Keys of the prefix tree

`RadixKey` of `radix_cache.py`, for keys of plain tokens. Keys are compared page by page;
the children of a node are found by the first page of what remains of a key.
-/

namespace Engram.Radix

open List

/-- `RadixKey`, with its namespace `extra_key`. -/
structure RadixKey where
  tokenIds : List Nat := []
  extraKey : Option String := none
deriving DecidableEq, Repr

/-- A key of the dictionary `children`. -/
abbrev ChildKey := Option String × List Nat

/-- The loop over pairs of tokens. -/
def commonLen : List Nat → List Nat → Nat
  | a :: as, b :: bs => if a = b then commonLen as bs + 1 else 0
  | _, _ => 0

/-- The loop over pages. Slices that reach beyond the end are shorter, so two keys that end
    with the same incomplete page match beyond their ends. A page has at least one token, so
    the shorter length bounds the number of rounds. -/
def commonPages (pageSize : Nat) : Nat → List Nat → List Nat → Nat
  | 0, _, _ => 0
  | rounds + 1, t0, t1 =>
    if t0 = [] ∨ t1 = [] then 0
    else if t0.take pageSize = t1.take pageSize then
      commonPages pageSize rounds (t0.drop pageSize) (t1.drop pageSize) + pageSize
    else 0

namespace RadixKey

def length (key : RadixKey) : Nat :=
  key.tokenIds.length

/-- `key[:n]` -/
def take (key : RadixKey) (n : Nat) : RadixKey :=
  { key with tokenIds := key.tokenIds.take n }

/-- `key[n:]` -/
def drop (key : RadixKey) (n : Nat) : RadixKey :=
  { key with tokenIds := key.tokenIds.drop n }

def childKey (pageSize : Nat) (key : RadixKey) : ChildKey :=
  (key.extraKey, key.tokenIds.take pageSize)

/-- `RadixKey.match`. -/
def matchLen (pageSize : Nat) (key other : RadixKey) : Nat :=
  if pageSize = 1 then commonLen key.tokenIds other.tokenIds
  else
    commonPages pageSize (min key.length other.length) key.tokenIds other.tokenIds

/-- `page_aligned` has nothing to cut. -/
def Aligned (pageSize : Nat) (key : RadixKey) : Prop :=
  pageSize ∣ key.length
deriving Decidable

@[simp] theorem length_take (key : RadixKey) (n : Nat) :
    (key.take n).length = min n key.length :=
  List.length_take

@[simp] theorem length_drop (key : RadixKey) (n : Nat) :
    (key.drop n).length = key.length - n :=
  List.length_drop

@[simp] theorem extraKey_take (key : RadixKey) (n : Nat) :
    (key.take n).extraKey = key.extraKey := rfl

@[simp] theorem extraKey_drop (key : RadixKey) (n : Nat) :
    (key.drop n).extraKey = key.extraKey := rfl

variable {pageSize : Nat}

theorem childKey_take {n : Nat} (key : RadixKey) (page : pageSize ≤ n) :
    (key.take n).childKey pageSize = key.childKey pageSize := by
  rw [childKey, childKey, take, take_take, Nat.min_eq_left page]

end RadixKey

/-! ### What is common to two keys -/

theorem commonLen_eq_commonPages (rounds : Nat) (t0 t1 : List Nat)
    (enough : min t0.length t1.length ≤ rounds) :
    commonLen t0 t1 = commonPages 1 rounds t0 t1 := by
  induction rounds generalizing t0 t1 with
  | zero =>
    cases t0 with
    | nil => rfl
    | cons a as =>
      cases t1 with
      | nil => rfl
      | cons b bs =>
        simp only [length_cons] at enough
        omega
  | succ rounds ih =>
    cases t0 with
    | nil => simp [commonLen, commonPages]
    | cons a as =>
      cases t1 with
      | nil => simp [commonLen, commonPages]
      | cons b bs =>
        have fewer : min as.length bs.length ≤ rounds := by
          simp only [length_cons] at enough
          omega
        simp [commonLen, commonPages, ih as bs fewer]

theorem RadixKey.matchLen_eq (pageSize : Nat) (key other : RadixKey) :
    key.matchLen pageSize other =
      commonPages pageSize (min key.length other.length) key.tokenIds other.tokenIds := by
  rw [matchLen]
  split
  · next single =>
    subst single
    exact commonLen_eq_commonPages _ _ _ (Nat.le_refl _)
  · rfl

theorem take_commonPages (pageSize rounds : Nat) (t0 t1 : List Nat) :
    t0.take (commonPages pageSize rounds t0 t1) = t1.take (commonPages pageSize rounds t0 t1) := by
  induction rounds generalizing t0 t1 with
  | zero => simp [commonPages]
  | succ rounds ih =>
    rw [commonPages]
    split
    · simp
    split
    · next page =>
      rw [Nat.add_comm, take_add, take_add, page, ih]
    · simp

variable {rounds pageSize : Nat} {t0 t1 : List Nat}

theorem le_commonPages (some0 : t0 ≠ []) (some1 : t1 ≠ [])
    (page : t0.take pageSize = t1.take pageSize) (enough : min t0.length t1.length ≤ rounds) :
    pageSize ≤ commonPages pageSize rounds t0 t1 := by
  have length0 := length_pos_iff.mpr some0
  have length1 := length_pos_iff.mpr some1
  obtain ⟨rounds, rfl⟩ : ∃ fewer, rounds = fewer + 1 := ⟨rounds - 1, by omega⟩
  rw [commonPages, if_neg (by simp [some0, some1]), if_pos page]
  exact Nat.le_add_left _ _

/-- Whole pages are compared with whole pages, and match within both keys. -/
theorem commonPages_of_aligned (aligned : pageSize ∣ t0.length) :
    pageSize ∣ commonPages pageSize rounds t0 t1 ∧
      commonPages pageSize rounds t0 t1 ≤ t0.length ∧
      commonPages pageSize rounds t0 t1 ≤ t1.length := by
  induction rounds generalizing t0 t1 with
  | zero => simp [commonPages]
  | succ rounds ih =>
    rw [commonPages]
    split
    · simp
    next nonempty =>
    split
    · next page =>
      have whole : pageSize ≤ t0.length := by
        apply Nat.le_of_dvd _ aligned
        exact length_pos_iff.mpr (fun empty => nonempty (.inl empty))
      have lengths := congrArg length page
      rw [length_take, length_take] at lengths
      have alignedRest : pageSize ∣ (t0.drop pageSize).length := by
        rw [length_drop]
        exact Nat.dvd_sub aligned (Nat.dvd_refl _)
      have rest : ∀ t1, pageSize ∣ commonPages pageSize rounds (t0.drop pageSize) t1 ∧
          commonPages pageSize rounds (t0.drop pageSize) t1 ≤ (t0.drop pageSize).length ∧
          commonPages pageSize rounds (t0.drop pageSize) t1 ≤ t1.length :=
        fun _ => ih alignedRest
      obtain ⟨divides, within0, within1⟩ := rest (t1.drop pageSize)
      rw [length_drop] at within0 within1
      refine ⟨Nat.dvd_add divides (Nat.dvd_refl _), ?_, ?_⟩
      · omega
      · omega
    · simp

theorem commonPages_of_prefix (positive : 0 < pageSize) (aligned : pageSize ∣ t0.length)
    (isPrefix : t0 <+: t1) (enough : t0.length ≤ rounds) :
    commonPages pageSize rounds t0 t1 = t0.length := by
  induction rounds generalizing t0 t1 with
  | zero => simp [commonPages, Nat.le_zero.mp enough]
  | succ rounds ih =>
    by_cases empty : t0 = []
    · simp [commonPages, empty]
    obtain ⟨rest, rfl⟩ := isPrefix
    have whole : pageSize ≤ t0.length :=
      Nat.le_of_dvd (length_pos_iff.mpr empty) aligned
    have alignedRest : pageSize ∣ (t0.drop pageSize).length := by
      rw [length_drop]
      exact Nat.dvd_sub aligned (Nat.dvd_refl _)
    have shorter := ih alignedRest (prefix_append (t0.drop pageSize) rest)
      (by rw [length_drop]; omega)
    rw [commonPages, if_neg (by simp [empty]), if_pos (by rw [take_append_of_le_length whole]),
      drop_append_of_le_length whole, shorter, length_drop]
    omega

namespace RadixKey

variable {pageSize : Nat} {key other : RadixKey}

theorem take_matchLen (pageSize : Nat) (key other : RadixKey) :
    key.tokenIds.take (key.matchLen pageSize other) =
      other.tokenIds.take (key.matchLen pageSize other) := by
  rw [matchLen_eq]
  exact take_commonPages ..

theorem le_matchLen (nonempty : key.tokenIds ≠ []) (nonempty' : other.tokenIds ≠ [])
    (found : key.childKey pageSize = other.childKey pageSize) :
    pageSize ≤ key.matchLen pageSize other := by
  rw [matchLen_eq]
  exact le_commonPages nonempty nonempty' (Prod.mk.inj found).2 (Nat.le_refl _)

theorem matchLen_of_aligned (aligned : key.Aligned pageSize) (other : RadixKey) :
    pageSize ∣ key.matchLen pageSize other ∧ key.matchLen pageSize other ≤ key.length ∧
      key.matchLen pageSize other ≤ other.length := by
  rw [matchLen_eq]
  exact commonPages_of_aligned aligned

theorem matchLen_of_prefix (positive : 0 < pageSize) (aligned : key.Aligned pageSize)
    (isPrefix : key.tokenIds <+: other.tokenIds) : key.matchLen pageSize other = key.length := by
  have shorter : key.length ≤ other.length := isPrefix.length_le
  rw [matchLen_eq]
  exact commonPages_of_prefix positive aligned isPrefix (Nat.le_min.mpr ⟨Nat.le_refl _, shorter⟩)

end RadixKey

end Engram.Radix
