import Mathlib.Data.List.Basic

/-!
# Runs of a system whose steps can fault

A step either yields the next state or stops the system. A run is a list of
events; the rules below carry a property of states along every run whose steps
are allowed.
-/

namespace Engram.Lib.Transition

variable {σ ε φ : Type} {step : σ → ε → Except φ σ} {allowed : σ → ε → Prop} {Inv : σ → Prop}

/-- Process the events in order, up to the first fault. -/
def run (step : σ → ε → Except φ σ) : σ → List ε → Except φ σ
  | s, [] => .ok s
  | s, e :: es =>
    match step s e with
    | .ok s' => run step s' es
    | .error fault => .error fault

/-- Every event of the run is allowed in the state it happens in. -/
def Admissible (step : σ → ε → Except φ σ) (allowed : σ → ε → Prop) : σ → List ε → Prop
  | _, [] => True
  | s, e :: es =>
    allowed s e ∧
      match step s e with
      | .ok s' => Admissible step allowed s' es
      | .error _ => True

instance decidableAdmissible (step : σ → ε → Except φ σ) (allowed : σ → ε → Prop)
    [∀ s e, Decidable (allowed s e)] :
    ∀ s es, Decidable (Admissible step allowed s es)
  | _, [] => instDecidableTrue
  | s, e :: es =>
    have : Decidable (match step s e with
        | .ok s' => Admissible step allowed s' es
        | .error _ => True) :=
      match step s e with
      | .ok s' => decidableAdmissible step allowed s' es
      | .error _ => instDecidableTrue
    inferInstanceAs (Decidable (_ ∧ _))

theorem run_cons_ok {s s' : σ} {e : ε} {es : List ε} (completed : run step s (e :: es) = .ok s') :
    ∃ mid, step s e = .ok mid ∧ run step mid es = .ok s' := by
  unfold run at completed
  split at completed
  · next mid stepped => exact ⟨mid, stepped, completed⟩
  · cases completed

theorem admissible_of_forall (always : ∀ s e, allowed s e) (s : σ) (es : List ε) :
    Admissible step allowed s es := by
  induction es generalizing s with
  | nil => trivial
  | cons e es ih =>
    refine ⟨always s e, ?_⟩
    split
    · exact ih _
    · trivial

theorem Admissible.mono {allowed' : σ → ε → Prop} (weaker : ∀ s e, allowed s e → allowed' s e)
    {s : σ} {es : List ε} (admissible : Admissible step allowed s es) :
    Admissible step allowed' s es := by
  induction es generalizing s with
  | nil => trivial
  | cons e es ih =>
    obtain ⟨permitted, later⟩ := admissible
    refine ⟨weaker s e permitted, ?_⟩
    cases stepped : step s e with
    | error fault => trivial
    | ok s' =>
      rw [stepped] at later
      exact ih later

theorem run_invariant (preserved : ∀ s e s', Inv s → allowed s e → step s e = .ok s' → Inv s')
    (es : List ε) (s s' : σ) (initially : Inv s) (admissible : Admissible step allowed s es)
    (completed : run step s es = .ok s') : Inv s' := by
  induction es generalizing s with
  | nil =>
    cases completed
    exact initially
  | cons e es ih =>
    obtain ⟨mid, stepped, rest⟩ := run_cons_ok completed
    obtain ⟨permitted, later⟩ := admissible
    rw [stepped] at later
    exact ih mid (preserved s e mid initially permitted stepped) later rest

theorem run_preserves (preserved : ∀ s e s', Inv s → step s e = .ok s' → Inv s') (es : List ε)
    (s s' : σ) (initially : Inv s) (completed : run step s es = .ok s') :
    Inv s' :=
  run_invariant (fun s e s' inv (_ : True) stepped => preserved s e s' inv stepped) es s s'
    initially (admissible_of_forall (fun _ _ => trivial) s es) completed

/-- A run faults only where one of its steps does: if no allowed step from a state
    of the invariant faults with `fault`, neither does an admissible run. -/
theorem run_never_faults {fault : φ}
    (preserved : ∀ s e s', Inv s → allowed s e → step s e = .ok s' → Inv s')
    (safe : ∀ s e, Inv s → allowed s e → step s e ≠ .error fault) (es : List ε) (s : σ)
    (initially : Inv s) (admissible : Admissible step allowed s es) :
    run step s es ≠ .error fault := by
  induction es generalizing s with
  | nil =>
    intro faulted
    cases faulted
  | cons e es ih =>
    obtain ⟨permitted, later⟩ := admissible
    unfold run
    split
    · next mid stepped =>
      rw [stepped] at later
      exact ih mid (preserved s e mid initially permitted stepped) later
    · next raised stepped =>
      intro same
      cases same
      exact safe s e initially permitted stepped

theorem bind_ok {α β : Type} {first : Except φ α} {next : α → Except φ β} {b : β}
    (completed : first >>= next = .ok b) : ∃ a, first = .ok a ∧ next a = .ok b := by
  cases first with
  | ok a => exact ⟨a, rfl, completed⟩
  | error fault => cases completed

section Tests

variable {α β : Type}

instance decidableYields (result : Except φ α) (P : α → Prop) [DecidablePred P] :
    Decidable (∃ a, result = .ok a ∧ P a) :=
  match result with
  | .ok a => decidable_of_iff (P a) (by simp)
  | .error _ => .isFalse (by simp)

instance decidableYieldsPair (result : Except φ (α × β)) (P : α → β → Prop)
    [∀ a, DecidablePred (P a)] : Decidable (∃ a b, result = .ok (a, b) ∧ P a b) :=
  match result with
  | .ok (a, b) => decidable_of_iff (P a b) (by simp)
  | .error _ => .isFalse (by simp)

instance decidableHolds (found : Option α) (P : α → Prop) [DecidablePred P] :
    Decidable (∃ a, found = some a ∧ P a) :=
  match found with
  | some a => decidable_of_iff (P a) (by simp)
  | none => .isFalse (by simp)

end Tests

def faultOf {α : Type} : Except φ α → Option φ
  | .ok _ => none
  | .error fault => some fault

theorem eq_error_of_faultOf {α : Type} {result : Except φ α} {fault : φ}
    (stops : faultOf result = some fault) : result = .error fault := by
  cases result with
  | ok a => cases stops
  | error raised =>
    cases stops
    rfl

/-- A computation stops only with faults in `P`, and what it yields is in `Q`. -/
def Ends {α : Type} (P : φ → Prop) (Q : α → Prop) : Except φ α → Prop
  | .ok a => Q a
  | .error fault => P fault

namespace Ends

variable {α β : Type} {P : φ → Prop} {Q : α → Prop}

theorem bind {R : β → Prop} {first : Except φ α} {next : α → Except φ β} (begins : Ends P Q first)
    (goesOn : ∀ a, first = .ok a → Q a → Ends P R (next a)) :
    Ends P R (first >>= next) := by
  cases first with
  | ok a => exact goesOn a rfl begins
  | error fault => exact begins

theorem mono {R : α → Prop} {result : Except φ α} (ends : Ends P Q result)
    (weaker : ∀ a, Q a → R a) :
    Ends P R result := by
  cases result with
  | ok a => exact weaker a ends
  | error fault => exact ends

theorem yields {result : Except φ α} {a : α} (ends : Ends P Q result) (completed : result = .ok a) :
    Q a := by
  rw [completed] at ends
  exact ends

end Ends

end Engram.Lib.Transition
