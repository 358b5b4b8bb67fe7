import Engram.Radix.Key

/-!
# Keys as sequences of units

`RadixKey` in both of its modes. The units of a key are its tokens or, in the bigram mode, the
pairs of neighbours among them. `match` counts whole common pages, except of equal keys that are
not aligned (`pageWise_iff`).
-/

namespace Engram.Radix

open List

/-- `RadixKey` with its mode `is_bigram`. -/
structure UnitKey extends RadixKey where
  isBigram : Bool := false
deriving DecidableEq, Repr

/-- A token, or a token and the next one. -/
abbrev KeyUnit := Nat × Option Nat

/-- The number of common leading entries. -/
def lcp {α : Type} [DecidableEq α] (xs ys : List α) : Nat :=
  ((xs.zip ys).takeWhile fun pair => pair.1 = pair.2).length

namespace UnitKey

/-- `__len__` -/
def length (key : UnitKey) : Nat :=
  if key.isBigram then key.tokenIds.length - 1 else key.tokenIds.length

/-- `__iter__` -/
def units (key : UnitKey) : List KeyUnit :=
  if key.isBigram then zipWith (fun a b => (a, some b)) key.tokenIds key.tokenIds.tail
  else key.tokenIds.map fun a => (a, none)

def slice (key : UnitKey) (start stop : Nat) : UnitKey :=
  let start := min start key.length
  let stop := min stop key.length
  let stop := if key.isBigram ∧ start < stop then stop + 1 else stop
  { key with tokenIds := (key.tokenIds.drop start).take (stop - start) }

def matchUnits (pageSize : Nat) (key other : UnitKey) :
    Except (Option String × Option String) Nat :=
  if key.extraKey ≠ other.extraKey then .error (key.extraKey, other.extraKey)
  else if key.isBigram then
    let matched := min (commonLen key.tokenIds other.tokenIds - 1) (min key.length other.length)
    .ok (if 1 < pageSize then matched / pageSize * pageSize else matched)
  else .ok (key.matchLen pageSize other.toRadixKey)

/-- `child_key`. Only the slice of a page of tokens may be too short without an `IndexError`. -/
def childKey (pageSize : Nat) (key : UnitKey) : Option (Option String × List KeyUnit) :=
  if key.length < pageSize ∧ (key.isBigram ∨ pageSize = 1) then none
  else some (key.extraKey, key.units.take pageSize)

/-- Keys of one mode and namespace behave like sequences of pages. -/
structure PageWise (pageSize : Nat) (key other : UnitKey) : Prop where
  matched : key.matchUnits pageSize other = .ok (lcp key.units other.units / pageSize * pageSize)
  found : pageSize ≤ key.length → pageSize ≤ other.length →
    ∀ n, key.matchUnits pageSize other = .ok n →
      (key.childKey pageSize = other.childKey pageSize ↔ pageSize ≤ n)
  lengths : ∀ a b, a ≤ b → b ≤ key.length → (key.slice a b).length = b - a
  slices : ∀ a b c d, a ≤ b → b ≤ key.length → c ≤ d → d ≤ b - a →
    (key.slice a b).slice c d = key.slice (a + c) (a + d)

end UnitKey

/-! ### Common leading entries -/

section

variable {α β : Type} [DecidableEq α] [DecidableEq β]

@[simp, grind =] theorem lcp_cons (x y : α) (xs ys : List α) :
    lcp (x :: xs) (y :: ys) = if x = y then lcp xs ys + 1 else 0 := by
  by_cases same : x = y <;> simp [lcp, same]

@[simp, grind =] theorem lcp_nil (ys : List α) : lcp [] ys = 0 := rfl

@[simp, grind =] theorem lcp_nil_right (xs : List α) : lcp xs [] = 0 := by
  simp [lcp]

theorem le_lcp {n : Nat} {xs ys : List α} :
    n ≤ lcp xs ys ↔ n ≤ xs.length ∧ n ≤ ys.length ∧ xs.take n = ys.take n := by
  induction n generalizing xs ys with
  | zero => simp
  | succ n ih => cases xs <;> cases ys <;> grind

theorem lcp_map {f : α → β} (injective : Function.Injective f) (xs ys : List α) :
    lcp (xs.map f) (ys.map f) = lcp xs ys := by
  refine eq_of_forall_le_iff fun n => ?_
  simp only [le_lcp, length_map, ← map_take, injective.list_map.eq_iff]

theorem lcp_drop {n : Nat} {xs ys : List α} (common : n ≤ lcp xs ys) :
    lcp xs ys = lcp (xs.drop n) (ys.drop n) + n := by
  induction n generalizing xs ys with
  | zero => rfl
  | succ n ih => cases xs <;> cases ys <;> grind

end

theorem commonLen_eq_lcp (t0 t1 : List Nat) : commonLen t0 t1 = lcp t0 t1 := by
  induction t0 generalizing t1 with
  | nil => simp [commonLen]
  | cons a as ih => cases t1 <;> grind [commonLen]

/-- The loop over pages goes beyond the end of equal keys that are not aligned, and only there
    misses the common pages. -/
theorem commonPages_eq_iff {pageSize : Nat} (positive : 0 < pageSize) {rounds : Nat}
    {t0 t1 : List Nat} (enough : min t0.length t1.length ≤ rounds) :
    commonPages pageSize rounds t0 t1 = lcp t0 t1 / pageSize * pageSize ↔
      ¬ (t0 = t1 ∧ ¬ pageSize ∣ t0.length) := by
  induction rounds generalizing t0 t1 with
  | zero =>
    have : t0 = [] ∨ t1 = [] := by grind
    rcases this with rfl | rfl <;> simp +contextual [commonPages]
  | succ rounds ih =>
    rw [commonPages]
    split
    · next short => rcases short with rfl | rfl <;> simp +contextual
    next long =>
    have shared : pageSize ≤ lcp t0 t1 ↔ _ := le_lcp
    split
    · next page =>
      have lengths := congrArg length page
      rw [length_take, length_take] at lengths
      by_cases whole : pageSize ≤ t0.length
      · have whole' : pageSize ≤ t1.length := by omega
        have rest := @ih (t0.drop pageSize) (t1.drop pageSize) (by simp; omega)
        have same : t0 = t1 ↔ t0.drop pageSize = t1.drop pageSize := by
          constructor
          · exact congrArg (drop pageSize)
          · intro rests
            rw [← take_append_drop pageSize t0, page, rests, take_append_drop]
        have aligned : pageSize ∣ t0.length - pageSize ↔ pageSize ∣ t0.length :=
          Nat.dvd_sub_iff_left whole (Nat.dvd_refl _)
        rw [lcp_drop (shared.mpr ⟨whole, whole', page⟩), Nat.add_div_right _ positive,
          Nat.succ_mul, Nat.add_right_cancel_iff, rest, same, length_drop, aligned]
      · -- the last pages are incomplete and equal
        have same : t0 = t1 := by rwa [take_of_length_le, take_of_length_le] at page <;> omega
        have few : lcp t0 t1 < pageSize := by grind
        have unaligned : ¬ pageSize ∣ t0.length := Nat.not_dvd_of_pos_of_lt (by grind) (by omega)
        rw [Nat.div_eq_of_lt few]
        grind
    · have few : lcp t0 t1 < pageSize := by grind
      rw [Nat.div_eq_of_lt few]
      grind

namespace UnitKey

variable {key other : UnitKey}

@[simp] theorem length_units (key : UnitKey) : key.units.length = key.length := by
  rw [units, length]
  split <;> simp

theorem lcp_units_bigram (bigram : key.isBigram = true) (bigram' : other.isBigram = true) :
    lcp key.units other.units = lcp key.tokenIds other.tokenIds - 1 := by
  rw [units, units, if_pos bigram]
  generalize key.tokenIds = t0, other.tokenIds = t1
  induction t0 generalizing t1 with
  | nil => rfl
  | cons a as ih =>
    rcases t1 with _ | ⟨b, bs⟩
    · simp
    have rest := ih bs
    rcases as with _ | ⟨a', as⟩ <;> rcases bs with _ | ⟨b', bs⟩ <;> simp at * <;> grind

theorem length_slice {a b : Nat} (ordered : a ≤ b) (inside : b ≤ key.length) :
    (key.slice a b).length = b - a := by
  simp only [slice, length] at *
  grind

theorem slice_slice {a b c d : Nat} (ordered : a ≤ b) (inside : b ≤ key.length)
    (ordered' : c ≤ d) (inside' : d ≤ b - a) :
    (key.slice a b).slice c d = key.slice (a + c) (a + d) := by
  have whole := length_slice ordered inside
  rw [slice, whole, slice, slice]
  simp only [drop_take, take_take, drop_drop, mk.injEq, RadixKey.mk.injEq, and_true]
  simp only [length] at *
  congr 1
  all_goals grind

section

variable {pageSize : Nat} (positive : 0 < pageSize) (namespaces : key.extraKey = other.extraKey)

include positive namespaces

theorem PageWise.of_matched
    (matched : key.matchUnits pageSize other =
      .ok (lcp key.units other.units / pageSize * pageSize)) :
    PageWise pageSize key other := by
  refine ⟨matched, ?_, fun _ _ => length_slice, fun _ _ _ _ => slice_slice⟩
  intro long long' n isMatch
  obtain rfl := Except.ok.inj (matched.symm.trans isMatch)
  have pages (n : Nat) : pageSize ≤ n / pageSize * pageSize ↔ pageSize ≤ n :=
    ⟨fun page => page.trans (Nat.div_mul_le_self ..),
      fun page => Nat.le_mul_of_pos_left _ (Nat.div_pos page positive)⟩
  rw [childKey, childKey, if_neg (by omega), if_neg (by omega), namespaces, pages, le_lcp]
  simp [long, long']

theorem matchUnits_bigram (bigram : key.isBigram = true) (bigram' : other.isBigram = true) :
    key.matchUnits pageSize other = .ok (lcp key.units other.units / pageSize * pageSize) := by
  obtain ⟨within, within', -⟩ := le_lcp.mp (Nat.le_refl (lcp key.units other.units))
  rw [length_units] at within within'
  rw [matchUnits, if_neg (not_not_intro namespaces), if_pos bigram, commonLen_eq_lcp,
    ← lcp_units_bigram bigram bigram', Nat.min_eq_left (Nat.le_min.mpr ⟨within, within'⟩)]
  obtain rfl | many : pageSize = 1 ∨ 1 < pageSize := by omega
  · simp
  · simp [many]

theorem matchUnits_tokens (plain : key.isBigram = false) (plain' : other.isBigram = false) :
    key.matchUnits pageSize other = .ok (lcp key.units other.units / pageSize * pageSize) ↔
      ¬ (key = other ∧ ¬ pageSize ∣ key.length) := by
  have same : key = other ↔ key.tokenIds = other.tokenIds := by
    rcases key with ⟨⟨_, _⟩, _⟩
    rcases other with ⟨⟨_, _⟩, _⟩
    simp_all
  have injective : Function.Injective fun a : Nat => (a, (none : Option Nat)) :=
    fun a b => by simp
  rw [matchUnits, if_neg (not_not_intro namespaces), if_neg (by simp [plain]), Except.ok.injEq,
    RadixKey.matchLen_eq, units, units, plain, plain', if_neg (by simp), if_neg (by simp),
    lcp_map injective, same, length, plain]
  exact commonPages_eq_iff positive (Nat.le_refl _)

end

/-- The laws hold unless equal keys of tokens are compared that are not aligned: `match` then
    counts the whole of their last page. -/
theorem pageWise_iff (pageSize : Nat) (key other : UnitKey) (positive : 0 < pageSize)
    (namespaces : key.extraKey = other.extraKey) (modes : key.isBigram = other.isBigram) :
    PageWise pageSize key other ↔
      ¬ (key.isBigram = false ∧ key = other ∧ ¬ pageSize ∣ key.length) := by
  cases mode : key.isBigram with
  | true =>
    have matched := matchUnits_bigram positive namespaces mode (modes ▸ mode)
    simpa using PageWise.of_matched positive namespaces matched
  | false =>
    have exactly := matchUnits_tokens positive namespaces mode (modes ▸ mode)
    simp only [true_and]
    rw [← exactly]
    exact ⟨PageWise.matched, PageWise.of_matched positive namespaces⟩

theorem pageWise_bigrams :
    PageWise 2 ⟨⟨[1, 2, 3, 4], none⟩, true⟩ ⟨⟨[1, 2, 3, 4], none⟩, true⟩ :=
  (pageWise_iff 2 _ _ (by decide) rfl rfl).mpr (by decide)

/-- Three common tokens count as two pages of two tokens. -/
theorem match_beyond_end :
    let key : UnitKey := { tokenIds := [1, 2, 3] }
    key.matchUnits 2 key = .ok 4 ∧ ¬ PageWise 2 key key := by
  intro key
  have beyond : key.matchUnits 2 key = .ok 4 := by decide
  refine ⟨beyond, fun laws => ?_⟩
  have wrong := laws.matched
  revert wrong
  decide

end UnitKey

end Engram.Radix
