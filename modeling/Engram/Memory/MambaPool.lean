import Engram.Snapshot.Tensor

/-!
# The Mamba state pool

`MambaPool` of `mem_cache/memory_pool.py` and the injection of a loaded
snapshot into one of its slots (`inject_state_to_pool`). Slot `0` is the padding
slot; the slots handed out are `1, …, size`.
-/

namespace Engram.Memory

open Snapshot List

/-- Dtype and per-slot shape of one pool tensor. -/
structure TensorSpec where
  dtype : Dtype
  shape : List Nat
deriving DecidableEq, Repr

/-- The part of `mamba_cache` that belongs to one slot. -/
structure SlotState (τ : Type) where
  conv : List τ
  temporal : τ
deriving DecidableEq

/-- The pool tensors, cut into slots, and the list of free slots. Every slot has
    one view of each convolution tensor. -/
structure MambaPool (τ : Type) where
  size : Nat
  convSpecs : List TensorSpec
  temporalSpec : TensorSpec
  freeSlots : List Nat
  cache : Nat → SlotState τ
  convCount : ∀ slot, (cache slot).conv.length = convSpecs.length

namespace MambaPool

variable {τ : Type}

def availableSize (pool : MambaPool τ) : Nat :=
  pool.freeSlots.length

def alloc (pool : MambaPool τ) (needSize : Nat) : Option (List Nat × MambaPool τ) :=
  if needSize > pool.freeSlots.length then none
  else some (pool.freeSlots.take needSize,
    { pool with freeSlots := pool.freeSlots.drop needSize })

def free (pool : MambaPool τ) (freeIndex : List Nat) : MambaPool τ :=
  { pool with freeSlots := pool.freeSlots ++ freeIndex }

def setSlot (pool : MambaPool τ) (slot : Nat) (state : SlotState τ)
    (fits : state.conv.length = pool.convSpecs.length) : MambaPool τ :=
  { pool with
    cache := Function.update pool.cache slot state
    convCount := by
      intro other
      rcases eq_or_ne other slot with rfl | different
      · rw [Function.update_self]
        exact fits
      · rw [Function.update_of_ne different]
        exact pool.convCount other }

def copyFrom (pool : MambaPool τ) (src dst : Nat) : MambaPool τ :=
  pool.setSlot dst (pool.cache src) (pool.convCount src)

def clearSlot [Torch τ] (pool : MambaPool τ) (slot : Nat) : MambaPool τ :=
  pool.setSlot slot
    { conv := pool.convSpecs.map (fun spec => Torch.zeros spec.dtype spec.shape)
      temporal := Torch.zeros pool.temporalSpec.dtype pool.temporalSpec.shape }
    (List.length_map ..)

/-- `copy_from` for several pairs of a source and a destination: all sources are read
    before a destination is written. -/
def copySlots (pool : MambaPool τ) (pairs : List (Nat × Nat)) : MambaPool τ :=
  { pool with
    cache := fun slot => pool.cache ((pairs.findRev? (·.2 == slot)).elim slot Prod.fst)
    convCount := fun _ => pool.convCount _ }

/-- The pool as it is built: every slot zero, slots `1..size` free. -/
def init [Torch τ] (size : Nat) (convSpecs : List TensorSpec) (temporalSpec : TensorSpec) :
    MambaPool τ where
  size := size
  convSpecs := convSpecs
  temporalSpec := temporalSpec
  freeSlots := List.range' 1 size
  cache := fun _ =>
    { conv := convSpecs.map (fun spec => Torch.zeros spec.dtype spec.shape)
      temporal := Torch.zeros temporalSpec.dtype temporalSpec.shape }
  convCount := fun _ => List.length_map ..

@[simp] theorem setSlot_cache_self (pool : MambaPool τ) (slot : Nat) (state : SlotState τ)
    (fits : state.conv.length = pool.convSpecs.length) :
    (pool.setSlot slot state fits).cache slot = state :=
  Function.update_self ..

theorem alloc_one_eq_some_iff {pool pool' : MambaPool τ} {slots : List Nat} :
    pool.alloc 1 = some (slots, pool') ↔
      ∃ slot rest, pool.freeSlots = slot :: rest ∧ slots = [slot] ∧
        pool' = { pool with freeSlots := rest } := by
  unfold alloc
  cases listed : pool.freeSlots with
  | nil => simp
  | cons slot rest =>
    have enough : ¬ 1 > (slot :: rest).length := by
      simp
    simp only [enough, if_false, Option.some.injEq, Prod.mk.injEq, cons.injEq]
    constructor
    · rintro ⟨rfl, rfl⟩
      exact ⟨slot, rest, ⟨rfl, rfl⟩, rfl, rfl⟩
    · rintro ⟨slot', rest', ⟨rfl, rfl⟩, rfl, rfl⟩
      exact ⟨rfl, rfl⟩

theorem alloc_one_eq_none_iff {pool : MambaPool τ} :
    pool.alloc 1 = none ↔ pool.freeSlots = [] := by
  unfold alloc
  cases pool.freeSlots with
  | nil => simp
  | cons slot rest => simp

/-- A slot of the pool is free. -/
def HasFreeSlot (pool : MambaPool τ) : Prop :=
  ∃ slot rest, pool.freeSlots = slot :: rest ∧ 1 ≤ slot ∧ slot ≤ pool.size

/-! ### Frames -/

structure AgreesOff (slot : Nat) (pool pool' : MambaPool τ) : Prop where
  size : pool'.size = pool.size
  convSpecs : pool'.convSpecs = pool.convSpecs
  temporalSpec : pool'.temporalSpec = pool.temporalSpec
  freeSlots : pool'.freeSlots = pool.freeSlots
  others : ∀ other, other ≠ slot → pool'.cache other = pool.cache other

theorem AgreesOff.refl (slot : Nat) (pool : MambaPool τ) : AgreesOff slot pool pool :=
  ⟨rfl, rfl, rfl, rfl, fun _ _ => rfl⟩

theorem AgreesOff.trans {slot : Nat} {pool pool' pool'' : MambaPool τ}
    (first : AgreesOff slot pool pool') (second : AgreesOff slot pool' pool'') :
    AgreesOff slot pool pool'' where
  size := second.size.trans first.size
  convSpecs := second.convSpecs.trans first.convSpecs
  temporalSpec := second.temporalSpec.trans first.temporalSpec
  freeSlots := second.freeSlots.trans first.freeSlots
  others := fun other different =>
    (second.others other different).trans (first.others other different)

theorem agreesOff_setSlot (pool : MambaPool τ) (slot : Nat) (state : SlotState τ)
    (fits : state.conv.length = pool.convSpecs.length) :
    AgreesOff slot pool (pool.setSlot slot state fits) where
  size := rfl
  convSpecs := rfl
  temporalSpec := rfl
  freeSlots := rfl
  others := fun _ different => Function.update_of_ne different ..

end MambaPool

/-! ### Injection -/

inductive InjectError where
  | invalidPoolIdx (slot size : Nat)
  | convCountMismatch (got expected : Nat)
  | validationFailed (slot : Nat) (errors : List String)
  | convShapeMismatch (i : Nat) (got expected : List Nat)
  | temporalShapeMismatch (got expected : List Nat)
deriving DecidableEq, Repr

section Inject

variable {τ : Type} [Torch τ]

/-- The assignment `conv[i][:, slot] = t`. -/
def MambaPool.writeConv (pool : MambaPool τ) (slot i : Nat) (spec : TensorSpec) (t : τ) :
    MambaPool τ :=
  pool.setSlot slot
    { pool.cache slot with conv := (pool.cache slot).conv.set i (Torch.castTo spec.dtype t) }
    ((List.length_set ..).trans (pool.convCount slot))

/-- The assignment `temporal[:, slot] = t`. -/
def MambaPool.writeTemporal (pool : MambaPool τ) (slot : Nat) (t : τ) : MambaPool τ :=
  pool.setSlot slot
    { pool.cache slot with temporal := Torch.castTo pool.temporalSpec.dtype t }
    (pool.convCount slot)

theorem MambaPool.agreesOff_writeTemporal (pool : MambaPool τ) (slot : Nat) (t : τ) :
    pool.AgreesOff slot (pool.writeTemporal slot t) :=
  pool.agreesOff_setSlot ..

/-- The loop over the convolution states. Each tensor is written as soon as its
    own shape has been checked, so a later mismatch leaves the earlier writes. -/
def injectConvStates (slot : Nat) : Nat → List TensorSpec → List τ → MambaPool τ →
    Option InjectError × MambaPool τ
  | i, spec :: specs, t :: convStates, pool =>
    if Torch.shape t ≠ spec.shape then
      (some (.convShapeMismatch i (Torch.shape t) spec.shape), pool)
    else injectConvStates slot (i + 1) specs convStates (pool.writeConv slot i spec t)
  | _, _, _, pool => (none, pool)

/-- `inject_state_to_pool`: the raised exception, if any, and the pool left behind. -/
def injectStateToPool (convStates : List τ) (temporalStates : τ) (pool : MambaPool τ)
    (slot : Nat) : Option InjectError × MambaPool τ :=
  let validation := validateStateTensors convStates temporalStates none false
  if slot < 1 ∨ slot > pool.size then
    (some (.invalidPoolIdx slot pool.size), pool)
  else if convStates.length ≠ pool.convSpecs.length then
    (some (.convCountMismatch convStates.length pool.convSpecs.length), pool)
  else if validation.isValid = false then
    (some (.validationFailed slot validation.errors), pool)
  else
    match injectConvStates slot 0 pool.convSpecs convStates pool with
    | (some error, pool') => (some error, pool')
    | (none, pool') =>
      if Torch.shape temporalStates ≠ pool'.temporalSpec.shape then
        (some (.temporalShapeMismatch (Torch.shape temporalStates) pool'.temporalSpec.shape),
          pool')
      else (none, pool'.writeTemporal slot temporalStates)

def injectedState (pool : MambaPool τ) (convStates : List τ) (temporalStates : τ) :
    SlotState τ where
  conv := List.zipWith (fun spec t => Torch.castTo spec.dtype t) pool.convSpecs convStates
  temporal := Torch.castTo pool.temporalSpec.dtype temporalStates

/-- The snapshot's tensors are valid and have the pool's count and shapes. -/
def Injectable (pool : MambaPool τ) (convStates : List τ) (temporalStates : τ) : Prop :=
  (validateStateTensors convStates temporalStates none false).isValid = true ∧
    convStates.map Torch.shape = pool.convSpecs.map TensorSpec.shape ∧
    Torch.shape temporalStates = pool.temporalSpec.shape
deriving Decidable

theorem injectConvStates_agreesOff (slot i : Nat) (specs : List TensorSpec)
    (convStates : List τ) (pool : MambaPool τ) :
    pool.AgreesOff slot (injectConvStates slot i specs convStates pool).2 := by
  induction specs generalizing i convStates pool with
  | nil =>
    exact .refl slot pool
  | cons spec specs ih =>
    cases convStates with
    | nil => exact .refl slot pool
    | cons t convStates =>
      unfold injectConvStates
      split
      · exact .refl slot pool
      · exact (pool.agreesOff_setSlot ..).trans (ih (i + 1) convStates _)

variable (convStates : List τ)

theorem injectStateToPool_agreesOff (temporalStates : τ) (pool : MambaPool τ) (slot : Nat) :
    pool.AgreesOff slot (injectStateToPool convStates temporalStates pool slot).2 := by
  have loop := injectConvStates_agreesOff slot 0 pool.convSpecs convStates pool
  unfold injectStateToPool
  simp only
  split
  · exact .refl slot pool
  split
  · exact .refl slot pool
  split
  · exact .refl slot pool
  split
  · next error pool' raised =>
    rw [raised] at loop
    exact loop
  · next pool' completed =>
    rw [completed] at loop
    split
    · exact loop
    · exact loop.trans (pool'.agreesOff_writeTemporal slot temporalStates)

theorem injectConvStates_none_iff (slot i : Nat) (specs : List TensorSpec)
    (convStates : List τ) (pool : MambaPool τ) (sameCount : convStates.length = specs.length) :
    (injectConvStates slot i specs convStates pool).1 = none ↔
      convStates.map Torch.shape = specs.map TensorSpec.shape := by
  induction specs generalizing i convStates pool with
  | nil =>
    have empty : convStates = [] := length_eq_zero_iff.mp sameCount
    subst empty
    simp [injectConvStates]
  | cons spec specs ih =>
    cases convStates with
    | nil => simp at sameCount
    | cons t convStates =>
      unfold injectConvStates
      split
      · next mismatch => simp [mismatch]
      · next shapes =>
        rw [not_not] at shapes
        rw [ih (i + 1) convStates _ (by simpa using sameCount)]
        simp [shapes]

/-- How many tensors the loop writes: those before the first one of another shape. -/
def fittingConvStates : List TensorSpec → List τ → Nat
  | spec :: specs, t :: convStates =>
    if Torch.shape t ≠ spec.shape then 0 else fittingConvStates specs convStates + 1
  | _, _ => 0

/-- What the loop leaves in the slot: of the views from position `i` on, those before the first
    tensor of another shape are replaced. -/
theorem injectConvStates_written (slot i : Nat) (specs : List TensorSpec) (convStates : List τ)
    (pool : MambaPool τ) (sameCount : convStates.length = specs.length)
    (position : (pool.cache slot).conv.length = i + specs.length) :
    let fitting := fittingConvStates specs convStates
    ((injectConvStates slot i specs convStates pool).1 = none → fitting = specs.length) ∧
      (∀ error, (injectConvStates slot i specs convStates pool).1 = some error →
        ∃ got expected, error = .convShapeMismatch (i + fitting) got expected) ∧
      (injectConvStates slot i specs convStates pool).2.cache slot =
        { conv := (pool.cache slot).conv.take i ++
            (zipWith (fun spec t => Torch.castTo spec.dtype t) specs convStates).take fitting ++
            (pool.cache slot).conv.drop (i + fitting)
          temporal := (pool.cache slot).temporal } := by
  induction specs generalizing i convStates pool with
  | nil =>
    refine ⟨fun _ => rfl, fun error raised => ?_, ?_⟩
    · simp [injectConvStates] at raised
    · simp [injectConvStates, fittingConvStates]
  | cons spec specs ih =>
    cases convStates with
    | nil => simp at sameCount
    | cons t convStates =>
      simp only [length_cons] at sameCount position
      unfold injectConvStates fittingConvStates
      split
      · -- nothing is written from here on
        refine ⟨fun completed => ?_, fun error raised => ?_, ?_⟩
        · cases completed
        · cases raised
          exact ⟨_, _, rfl⟩
        · simp
      · obtain ⟨all, raises, left⟩ := ih (i + 1) convStates
          (pool.writeConv slot i spec t) (by omega) (by simp [MambaPool.writeConv]; omega)
        refine ⟨fun completed => ?_, fun error raised => ?_, ?_⟩
        · rw [all completed, length_cons]
        · obtain ⟨got, expected, isError⟩ := raises error raised
          exact ⟨got, expected, by rw [isError, Nat.add_assoc, Nat.add_comm 1]⟩
        · have inBounds : i < (pool.cache slot).conv.length := by
            omega
          rw [left]
          simp only [MambaPool.writeConv, MambaPool.setSlot_cache_self, zipWith_cons_cons,
            take_succ_cons]
          rw [take_succ_eq_append_getElem (by simpa using inBounds), take_set_of_le (by omega),
            drop_set_of_lt (by omega)]
          simp [Nat.add_assoc, Nat.add_comm 1]

/-- An injection into a slot of the pool succeeds exactly when the tensors are
    injectable, and then the slot holds them converted to the pool's dtypes. -/
theorem injectStateToPool_none_iff (temporalStates : τ) (pool : MambaPool τ) (slot : Nat)
    (inRange : 1 ≤ slot ∧ slot ≤ pool.size) :
    (injectStateToPool convStates temporalStates pool slot).1 = none ↔
      Injectable pool convStates temporalStates := by
  have outside : ¬ (slot < 1 ∨ slot > pool.size) := by
    omega
  have frame := injectConvStates_agreesOff slot 0 pool.convSpecs convStates pool
  unfold injectStateToPool Injectable
  simp only [outside, if_false]
  split
  · next count =>
    have shapes : convStates.map Torch.shape ≠ pool.convSpecs.map TensorSpec.shape := by
      intro same
      have lengths := congrArg length same
      rw [length_map, length_map] at lengths
      exact count lengths
    simp [shapes]
  · next count =>
    rw [not_not] at count
    split
    · next invalid => simp [invalid]
    · next valid =>
      have loop := injectConvStates_none_iff slot 0 pool.convSpecs convStates pool count
      split
      · next error pool' raised =>
        rw [raised] at loop
        simp only [reduceCtorEq, false_iff] at loop
        simp [loop]
      · next pool' completed =>
        rw [completed] at loop frame
        simp only [true_iff] at loop
        rw [frame.temporalSpec]
        split
        · next mismatch => simp [mismatch]
        · next same =>
          rw [not_not] at same
          simp [valid, loop, same]

theorem injectStateToPool_slot (temporalStates : τ) (pool : MambaPool τ) (slot : Nat)
    (injected : (injectStateToPool convStates temporalStates pool slot).1 = none) :
    (injectStateToPool convStates temporalStates pool slot).2.cache slot =
      injectedState pool convStates temporalStates := by
  have frame := injectConvStates_agreesOff slot 0 pool.convSpecs convStates pool
  unfold injectStateToPool at injected ⊢
  simp only at injected ⊢
  split at injected
  · simp at injected
  next inside =>
  split at injected
  · simp at injected
  next count =>
  split at injected
  · simp at injected
  next valid =>
  rw [if_neg inside, if_neg count, if_neg valid]
  rw [not_not] at count
  obtain ⟨all, -, left⟩ := injectConvStates_written slot 0 pool.convSpecs convStates pool
    count (by rw [pool.convCount slot]; omega)
  split at injected
  · simp at injected
  next pool' completed =>
  rw [completed] at all left frame
  split at injected
  · simp at injected
  next shape =>
  simp only [if_neg shape, MambaPool.writeTemporal, MambaPool.setSlot_cache_self]
  rw [left, all rfl, frame.temporalSpec]
  simp only [take_zero, nil_append, Nat.zero_add]
  rw [take_of_length_le (length_zipWith ▸ Nat.min_le_left ..),
    drop_of_length_le (Nat.le_of_eq (pool.convCount slot)), append_nil]
  rfl

end Inject

end Engram.Memory
