import Engram.Memory.MambaPool

/-!
# Taking a state out of the pool and putting it back

`extract_state_from_pool`, and what it finds after an injection. An injection converts to the
dtypes of the pool, so an extraction undoes it for valid states of the pool's own dtypes. It
checks the slot, the number of tensors and their content before the first write, and the shapes
between the writes, so one that raises may leave tensors behind (`inject_then_extract`).
-/

namespace Engram.Memory

open Snapshot

variable {τ : Type} [Torch τ]

/-- The exception `extract_state_from_pool` raises. -/
inductive ExtractError where
  | validationFailed (slot : Nat) (errors : List String)
deriving DecidableEq, Repr

/-- `extract_state_from_pool`, for an index of the pool. -/
def extractStateFromPool (pool : MambaPool τ) (slot : Nat) : Except ExtractError (List τ × τ) :=
  let state := pool.cache slot
  let validation := validateStateTensors state.conv state.temporal none false
  if validation.isValid = false then .error (.validationFailed slot validation.errors)
  else .ok (state.conv, state.temporal)

/-- The tensors have the dtypes of the pool, one by one. -/
def SameDtypes (pool : MambaPool τ) (convStates : List τ) (temporalStates : τ) : Prop :=
  convStates.map Torch.dtype = pool.convSpecs.map TensorSpec.dtype ∧
    Torch.dtype temporalStates = pool.temporalSpec.dtype
deriving Decidable

/-- What fails before the first write: the slot, the number of tensors, their content, or the
    shape of the tensor that is written first. -/
def RefusedAtOnce (pool : MambaPool τ) (slot : Nat) (convStates : List τ) (temporalStates : τ) :
    Prop :=
  ¬ (1 ≤ slot ∧ slot ≤ pool.size) ∨ convStates.length ≠ pool.convSpecs.length ∨
    (validateStateTensors convStates temporalStates none false).isValid = false ∨
    (convStates ++ [temporalStates]).head?.map Torch.shape ≠
      (pool.convSpecs ++ [pool.temporalSpec]).head?.map TensorSpec.shape

/-- How many convolution tensors are written before the exception is raised. -/
def InjectError.written (convStates : List τ) : InjectError → Nat
  | .convShapeMismatch i _ _ => i
  | .temporalShapeMismatch _ _ => convStates.length
  | _ => 0

theorem zipWith_castTo_of_dtypes (keepsDtype : ∀ t : τ, Torch.castTo (Torch.dtype t) t = t)
    (specs : List TensorSpec) (convStates : List τ)
    (dtypes : convStates.map Torch.dtype = specs.map TensorSpec.dtype) :
    List.zipWith (fun spec t => Torch.castTo spec.dtype t) specs convStates = convStates := by
  induction specs generalizing convStates with
  | nil =>
    obtain rfl : convStates = [] := by
      simpa using dtypes
    rfl
  | cons spec specs ih =>
    cases convStates with
    | nil => rfl
    | cons t convStates =>
      rw [List.map_cons, List.map_cons, List.cons.injEq] at dtypes
      rw [List.zipWith_cons_cons, ih convStates dtypes.2, ← dtypes.1, keepsDtype]

/-- An injection that raises has written the tensors before the one it complains about, and
    has not reached the temporal tensor. -/
theorem injectStateToPool_raised {pool pool' : MambaPool τ} {slot : Nat} {convStates : List τ}
    {temporalStates : τ} {error : InjectError}
    (raised : injectStateToPool convStates temporalStates pool slot = (some error, pool')) :
    pool'.cache slot =
      { conv := (injectedState pool convStates temporalStates).conv.take (error.written convStates)
          ++ (pool.cache slot).conv.drop (error.written convStates)
        temporal := (pool.cache slot).temporal } := by
  unfold injectStateToPool at raised
  simp only at raised
  -- nothing is written by the three checks in front of the loop
  split at raised
  · cases raised
    rfl
  split at raised
  · cases raised
    rfl
  next count =>
  rw [not_not] at count
  split at raised
  · cases raised
    rfl
  obtain ⟨all, raises, left⟩ := injectConvStates_written slot 0 pool.convSpecs convStates
    pool count (by rw [pool.convCount slot, Nat.zero_add])
  simp only [List.take_zero, List.nil_append, Nat.zero_add] at left raises
  split at raised
  · next loopError loopPool stopped =>
    rw [stopped] at left raises
    obtain ⟨got, expected, isError⟩ := raises loopError rfl
    cases raised
    rw [left, isError]
    rfl
  · next loopPool completed =>
    rw [completed] at left all
    split at raised
    · cases raised
      rw [left, all rfl, ← count]
      rfl
    · cases raised

theorem injectStateToPool_of_refusedAtOnce {pool : MambaPool τ} {slot : Nat} {convStates : List τ}
    {temporalStates : τ} (refused : RefusedAtOnce pool slot convStates temporalStates) :
    ∃ error, injectStateToPool convStates temporalStates pool slot = (some error, pool) := by
  unfold injectStateToPool
  simp only
  split
  · exact ⟨_, rfl⟩
  next inside =>
  split
  · exact ⟨_, rfl⟩
  next count =>
  split
  · exact ⟨_, rfl⟩
  next valid =>
  rcases refused with outside | miscounted | invalid | firstShape
  · omega
  · exact absurd miscounted count
  · exact absurd invalid valid
  -- the loop stops at once, or there is nothing to loop over
  cases specs : pool.convSpecs with
  | nil =>
    rw [specs, not_not] at count
    obtain rfl := List.length_eq_zero_iff.mp count
    rw [specs] at firstShape
    have mismatch : Torch.shape temporalStates ≠ pool.temporalSpec.shape := by
      simpa using firstShape
    simp only [injectConvStates, if_pos mismatch]
    exact ⟨_, rfl⟩
  | cons spec rest =>
    cases convStates with
    | nil => simp [specs] at count
    | cons t convStates =>
      rw [specs] at firstShape
      have mismatch : Torch.shape t ≠ spec.shape := by
        simpa using firstShape
      rw [injectConvStates, if_pos mismatch]
      exact ⟨_, rfl⟩

theorem injectStateToPool_range {pool pool' : MambaPool τ} {slot : Nat} {convStates : List τ}
    {temporalStates : τ}
    (injected : injectStateToPool convStates temporalStates pool slot = (none, pool')) :
    1 ≤ slot ∧ slot ≤ pool.size := by
  by_contra outside
  have refused : RefusedAtOnce pool slot convStates temporalStates := .inl outside
  obtain ⟨error, refused⟩ := injectStateToPool_of_refusedAtOnce refused
  rw [injected] at refused
  cases refused

theorem injectStateToPool_cache {pool : MambaPool τ} {slot : Nat} {convStates : List τ}
    {temporalStates : τ} (accepted : ¬ RefusedAtOnce pool slot convStates temporalStates) :
    (injectStateToPool convStates temporalStates pool slot).2.cache slot =
      let state := injectedState pool convStates temporalStates
      let fitting := fittingConvStates pool.convSpecs convStates
      { conv := state.conv.take fitting ++ (pool.cache slot).conv.drop fitting
        temporal := if Injectable pool convStates temporalStates then state.temporal
          else (pool.cache slot).temporal } := by
  simp only [RefusedAtOnce, not_or, not_not] at accepted
  obtain ⟨inside, count, valid, -⟩ := accepted
  obtain ⟨all, -, left⟩ := injectConvStates_written slot 0 pool.convSpecs convStates pool count
    (by rw [pool.convCount slot, Nat.zero_add])
  have loop := injectConvStates_none_iff slot 0 pool.convSpecs convStates pool count
  have frame := injectConvStates_agreesOff slot 0 pool.convSpecs convStates pool
  simp only [List.take_zero, List.nil_append, Nat.zero_add] at left
  unfold injectStateToPool
  simp only [Injectable]
  rw [if_neg (by omega), if_neg (not_not.mpr count), if_neg valid]
  split
  · -- a tensor of another shape ends the loop
    next error pool' raised =>
    rw [raised] at loop left
    simp only [reduceCtorEq, false_iff] at loop
    simp only [loop, false_and, and_false, if_false]
    exact left
  next pool' completed =>
  simp only [completed, true_iff] at loop left frame
  rw [frame.temporalSpec]
  split
  · next mismatch =>
    simp only [mismatch, and_false, if_false]
    exact left
  · next shape =>
    have injectable : Injectable pool convStates temporalStates :=
      ⟨by simpa using valid, loop, not_not.mp shape⟩
    simp only [MambaPool.writeTemporal, MambaPool.setSlot_cache_self, left, frame.temporalSpec]
    exact congrArg (SlotState.mk _) (if_pos injectable).symm

/-- The slot has every tensor that an injection writes: the converted convolution tensors
    before the first one of another shape, and the temporal one if all shapes are right. -/
structure HasAlready (pool : MambaPool τ) (slot : Nat) (convStates : List τ)
    (temporalStates : τ) : Prop where
  conv : (injectedState pool convStates temporalStates).conv.take
      (fittingConvStates pool.convSpecs convStates) =
    (pool.cache slot).conv.take (fittingConvStates pool.convSpecs convStates)
  temporal : Injectable pool convStates temporalStates →
    Torch.castTo pool.temporalSpec.dtype temporalStates = (pool.cache slot).temporal

theorem injectStateToPool_cache_eq_iff (pool : MambaPool τ) (slot : Nat) (convStates : List τ)
    (temporalStates : τ) :
    (injectStateToPool convStates temporalStates pool slot).2.cache slot = pool.cache slot ↔
      (¬ RefusedAtOnce pool slot convStates temporalStates →
        HasAlready pool slot convStates temporalStates) := by
  by_cases refused : RefusedAtOnce pool slot convStates temporalStates
  · obtain ⟨error, same⟩ := injectStateToPool_of_refusedAtOnce refused
    simp [same, refused]
  rw [injectStateToPool_cache refused]
  simp only [refused, not_false_eq_true, forall_const]
  -- the tensors from the first misfit on are those of the slot on both sides
  have split := List.take_append_drop (fittingConvStates pool.convSpecs convStates)
    (pool.cache slot).conv
  constructor
  · intro same
    constructor
    · have conv := congrArg SlotState.conv same
      exact List.append_cancel_right (conv.trans split.symm)
    · intro injectable
      have temporal := congrArg SlotState.temporal same
      rwa [if_pos injectable] at temporal
  · intro has
    rw [has.conv, split]
    split_ifs with injectable
    · rw [injectedState, has.temporal injectable]
    · rfl

/-- A state that passes the validation and has the shapes and dtypes of the pool comes back
    from its slot as it was; no other slot is ever written; an injection that is refused before
    the first write leaves the pool as it was; and one that raises later leaves in its slot the
    tensors before the one it complains about. -/
theorem inject_then_extract (keepsDtype : ∀ t : τ, Torch.castTo (Torch.dtype t) t = t)
    (pool : MambaPool τ) (slot : Nat) (convStates : List τ) (temporalStates : τ) :
    (1 ≤ slot ∧ slot ≤ pool.size → Injectable pool convStates temporalStates →
      SameDtypes pool convStates temporalStates →
      (injectStateToPool convStates temporalStates pool slot).1 = none ∧
        extractStateFromPool (injectStateToPool convStates temporalStates pool slot).2 slot =
          .ok (convStates, temporalStates)) ∧
    (∀ other, other ≠ slot →
      (injectStateToPool convStates temporalStates pool slot).2.cache other = pool.cache other) ∧
    (RefusedAtOnce pool slot convStates temporalStates →
      ∃ error, injectStateToPool convStates temporalStates pool slot = (some error, pool)) ∧
    (∀ error pool', injectStateToPool convStates temporalStates pool slot = (some error, pool') →
      pool'.cache slot =
        { conv :=
            (injectedState pool convStates temporalStates).conv.take (error.written convStates) ++
              (pool.cache slot).conv.drop (error.written convStates)
          temporal := (pool.cache slot).temporal }) := by
  refine ⟨?_, ?_, injectStateToPool_of_refusedAtOnce, fun _ _ => injectStateToPool_raised⟩
  · intro inRange injectable dtypes
    have injected := (injectStateToPool_none_iff convStates temporalStates pool slot inRange).mpr
      injectable
    refine ⟨injected, ?_⟩
    have held := injectStateToPool_slot convStates temporalStates pool slot injected
    rw [injectedState, zipWith_castTo_of_dtypes keepsDtype _ _ dtypes.1, ← dtypes.2,
      keepsDtype] at held
    have valid : ¬ (validateStateTensors convStates temporalStates none false).isValid = false := by
      simp [injectable.1]
    rw [extractStateFromPool, held]
    exact if_neg valid
  · exact (injectStateToPool_agreesOff convStates temporalStates pool slot).others

section Examples

/-- Two slots, two convolution tensors of one entry and a temporal tensor. -/
def samplePool : MambaPool IntTensor :=
  .init 2 [⟨.float32, [1]⟩, ⟨.float32, [1]⟩] ⟨.float32, [1]⟩

def sampleTensor (dtype : Dtype) (value : Int) : IntTensor :=
  ⟨dtype, [1], [value]⟩

/-- A state put into slot 1 comes back. -/
theorem inject_then_extract_sample :
    extractStateFromPool (injectStateToPool [sampleTensor .float32 1, sampleTensor .float32 2]
      (sampleTensor .float32 3) samplePool 1).2 1 =
        .ok ([sampleTensor .float32 1, sampleTensor .float32 2], sampleTensor .float32 3) :=
  ((inject_then_extract (fun _ => rfl) samplePool 1
    [sampleTensor .float32 1, sampleTensor .float32 2] (sampleTensor .float32 3)).1
    (by decide) (by decide) (by decide)).2

/-- Shapes that match are not enough: tensors of another dtype come back converted, and
    tensors of a dtype that the validation does not know are refused. And an injection that
    raises for the shape of the second tensor leaves the first one in the slot, next to the
    zeros of the pool. -/
theorem inject_then_extract_differs :
    let half := sampleTensor .float16 7
    let word := sampleTensor (.other "torch.int64") 7
    let single := sampleTensor .float32 7
    let wide : IntTensor := ⟨.float32, [2], [7, 7]⟩
    ([half, half].map Torch.shape = samplePool.convSpecs.map TensorSpec.shape ∧
      (injectStateToPool [half, half] half samplePool 1).1 = none ∧
      extractStateFromPool (injectStateToPool [half, half] half samplePool 1).2 1 ≠
        .ok ([half, half], half) ∧
      [word, word].map Torch.shape = samplePool.convSpecs.map TensorSpec.shape ∧
      (injectStateToPool [word, word] word samplePool 1).1 ≠ none) ∧
    (injectStateToPool [single, wide] single samplePool 1).1 =
      some (.convShapeMismatch 1 [2] [1]) ∧
    (samplePool.cache 1).conv = [sampleTensor .float32 0, sampleTensor .float32 0] ∧
    ((injectStateToPool [single, wide] single samplePool 1).2.cache 1).conv =
      [single, sampleTensor .float32 0] := by
  decide

end Examples

end Engram.Memory
