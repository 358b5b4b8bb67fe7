import Mathlib.Algebra.Group.Nat.Defs
import Mathlib.Data.List.Basic

/-!
# Tensors and their validation

`snapshot/mamba_snapshot.py` looks at a tensor through a handful of torch
calls. They are the fields of `Torch`; the validation the snapshot manager runs
before every save, load and injection is written over them.
-/

namespace Engram.Snapshot

open List

inductive Dtype where
  | float32
  | bfloat16
  | float16
  | float8E4m3fn
  | other (name : String)
deriving DecidableEq, Repr

/-- `str(t.dtype)`. -/
def Dtype.text : Dtype → String
  | .float32 => "torch.float32"
  | .bfloat16 => "torch.bfloat16"
  | .float16 => "torch.float16"
  | .float8E4m3fn => "torch.float8_e4m3fn"
  | .other name => name

/-- What the program asks of a torch tensor. -/
class Torch (τ : Type) where
  dtype : τ → Dtype
  shape : τ → List Nat
  /-- `torch.isnan(t).any()` -/
  isnanAny : τ → Bool
  /-- `torch.isinf(t).any()` -/
  isinfAny : τ → Bool
  /-- `t.abs().sum() == 0` -/
  absSumIsZero : τ → Bool
  /-- `t.to(dtype)`, also the conversion a slice assignment performs -/
  castTo : Dtype → τ → τ
  /-- `torch.zeros(shape, dtype)` -/
  zeros : Dtype → List Nat → τ
  /-- `t.element_size()` -/
  elementSize : τ → Nat
  /-- how Python prints the set `ALLOWED_DTYPES`, whose order it leaves open -/
  allowedDtypesText : String

def allowedDtypes : List Dtype :=
  [.float32, .bfloat16, .float16, .float8E4m3fn]

structure ValidationResult where
  isValid : Bool
  warnings : List String
  errors : List String
deriving DecidableEq, Repr

variable {τ : Type} [Torch τ]

def numel (t : τ) : Nat :=
  (Torch.shape t).prod

/-- FP8 tensors are upcast before the numeric checks. -/
def numericView (t : τ) : τ :=
  if Torch.dtype t = .float8E4m3fn then Torch.castTo .float16 t else t

def checkTensor (convId : String) (strict : Bool) (name : String) (t : τ) :
    List String × List String :=
  if numel t = 0 then
    ([], ["[" ++ convId ++ "] " ++ name ++ ": empty tensor (0 elements)"])
  else if Torch.dtype t ∉ allowedDtypes then
    ([], ["[" ++ convId ++ "] " ++ name ++ ": invalid dtype " ++ (Torch.dtype t).text ++
      ", expected one of " ++ Torch.allowedDtypesText τ])
  else
    let nan :=
      if Torch.isnanAny (numericView t) then
        ["[" ++ convId ++ "] " ++ name ++ ": contains NaN values"] else []
    let inf :=
      if Torch.isinfAny (numericView t) then
        ["[" ++ convId ++ "] " ++ name ++ ": contains Inf values"] else []
    let zero :=
      if Torch.absSumIsZero (numericView t) then
        ["[" ++ convId ++ "] " ++ name ++ ": all-zero tensor (possibly uninitialized)"] else []
    if strict then ([], nan ++ inf ++ zero) else (zero, nan ++ inf)

def namedTensors (convStates : List τ) (temporalStates : τ) : List (String × τ) :=
  convStates.mapIdx (fun i t => ("conv_state[" ++ toString i ++ "]", t)) ++
    [("temporal_states", temporalStates)]

def validateStateTensors (convStates : List τ) (temporalStates : τ)
    (conversationId : Option String) (strict : Bool) : ValidationResult :=
  let convId := conversationId.getD "unknown"
  if convStates = [] then
    { isValid := false, warnings := [],
      errors := ["[" ++ convId ++ "] conv_states list is empty"] }
  else
    let checks := (namedTensors convStates temporalStates).map
      (fun named => checkTensor convId strict named.1 named.2)
    { isValid := checks.flatMap Prod.snd = []
      warnings := checks.flatMap Prod.fst
      errors := checks.flatMap Prod.snd }

/-- A tensor the validation has no error for. -/
def Sound (strict : Bool) (t : τ) : Prop :=
  numel t ≠ 0 ∧ Torch.dtype t ∈ allowedDtypes ∧
    Torch.isnanAny (numericView t) = false ∧ Torch.isinfAny (numericView t) = false ∧
    (strict = true → Torch.absSumIsZero (numericView t) = false)
deriving Decidable

theorem checkTensor_errors_nil_iff (convId : String) (strict : Bool) (name : String) (t : τ) :
    (checkTensor convId strict name t).2 = [] ↔ Sound strict t := by
  unfold checkTensor Sound
  by_cases empty : numel t = 0
  · simp [empty]
  by_cases allowed : Torch.dtype t ∈ allowedDtypes
  · cases strict
    · simp [empty, allowed]
    · simp [empty, allowed]
  · simp [empty, allowed]

omit [Torch τ] in
private theorem mem_namedTensors {convStates : List τ} {temporalStates t : τ} :
    (∃ name, (name, t) ∈ namedTensors convStates temporalStates) ↔
      t ∈ convStates ∨ t = temporalStates := by
  simp only [namedTensors, mem_append, mem_mapIdx, mem_singleton, Prod.mk.injEq]
  constructor
  · rintro ⟨name, ⟨i, bound, -, rfl⟩ | ⟨-, rfl⟩⟩
    · exact .inl (getElem_mem bound)
    · exact .inr rfl
  · rintro (member | rfl)
    · obtain ⟨i, bound, rfl⟩ := getElem_of_mem member
      exact ⟨_, .inl ⟨i, bound, rfl, rfl⟩⟩
    · exact ⟨_, .inr ⟨rfl, rfl⟩⟩

/-- Validation accepts exactly the states with at least one convolution tensor
    all of whose tensors are sound. -/
theorem validateStateTensors_isValid_iff (convStates : List τ) (temporalStates : τ)
    (cid : Option String) (strict : Bool) :
    (validateStateTensors convStates temporalStates cid strict).isValid = true ↔
      convStates ≠ [] ∧ (∀ t ∈ convStates, Sound strict t) ∧ Sound strict temporalStates := by
  unfold validateStateTensors
  by_cases none : convStates = []
  · simp [none]
  simp only [none, if_false, decide_eq_true_eq, flatMap_map, flatMap_eq_nil_iff,
    checkTensor_errors_nil_iff, ne_eq, not_false_eq_true, true_and]
  constructor
  · intro sound
    refine ⟨?_, ?_⟩
    · intro t member
      obtain ⟨name, named⟩ := mem_namedTensors.mpr (.inl member)
      exact sound _ named
    · obtain ⟨name, named⟩ : ∃ name,
          (name, temporalStates) ∈ namedTensors convStates temporalStates :=
        mem_namedTensors.mpr (.inr rfl)
      exact sound _ named
  · rintro ⟨convSound, temporalSound⟩ ⟨name, t⟩ named
    rcases mem_namedTensors.mp ⟨name, named⟩ with member | rfl
    · exact convSound t member
    · exact temporalSound

/-- A tensor with integer entries small enough to be exact in every allowed dtype. -/
structure IntTensor where
  dtype : Dtype
  shape : List Nat
  data : List Int
deriving DecidableEq, Repr

instance : Torch IntTensor where
  dtype := IntTensor.dtype
  shape := IntTensor.shape
  isnanAny := fun _ => false
  isinfAny := fun _ => false
  absSumIsZero := fun t => t.data.all (fun entry => entry = 0)
  castTo := fun dtype t => { t with dtype }
  zeros := fun dtype shape => { dtype, shape, data := List.replicate shape.prod 0 }
  elementSize := fun t =>
    match t.dtype with
    | .float32 => 4
    | .bfloat16 => 2
    | .float16 => 2
    | .float8E4m3fn => 1
    | .other _ => 8
  allowedDtypesText :=
    "\x7btorch.float32, torch.bfloat16, torch.float16, torch.float8_e4m3fn\x7d"

end Engram.Snapshot
