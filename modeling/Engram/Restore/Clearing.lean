import Engram.Restore.Staging

/-!
# What a cleared restore leaves behind

`_clear_pending_restore` removes one entry: the one under the request id, or, when there is none,
the one the conversation id is an alias of. An entry of the conversation under another key stays.
Later operations make no old entry reachable through a new key, so whether the clearing is final
is decided at the moment of the call (`cleared_restore_stays_cleared_iff`).
-/

namespace Engram.Restore

open Lib Memory Snapshot Scheduler

namespace PendingRestores

variable {τ : Type} {p' p'' : PendingRestores τ} {rid : Key} {entry : PendingRestoreEntry τ}

/-! ### What each operation can add -/

structure Within (p' p : PendingRestores τ) : Prop where
  registry : ∀ key entry, p'.registry.lookup key = some entry →
    p.registry.lookup key = some entry
  aliases : ∀ aliasKey target, p'.aliases.lookup aliasKey = some target →
    p.aliases.lookup aliasKey = some target

theorem Within.refl (p : PendingRestores τ) : p.Within p :=
  ⟨fun _ _ found => found, fun _ _ found => found⟩

theorem Within.trans {p : PendingRestores τ} (second : p''.Within p') (first : p'.Within p) :
    p''.Within p where
  registry := fun key entry found => first.registry key entry (second.registry key entry found)
  aliases := fun aliasKey target found =>
    first.aliases aliasKey target (second.aliases aliasKey target found)

theorem Within.mem {p : PendingRestores τ} (within : p'.Within p) {key : Key}
    (member : key ∈ p'.registry) : key ∈ p.registry := by
  obtain ⟨entry, found⟩ := OrderedDict.mem_iff_lookup.mp member
  exact OrderedDict.mem_of_lookup (within.registry key entry found)

theorem Within.mem_aliases {p : PendingRestores τ} (within : p'.Within p) {aliasKey : Key}
    (member : aliasKey ∈ p'.aliases) : aliasKey ∈ p.aliases := by
  obtain ⟨target, found⟩ := OrderedDict.mem_iff_lookup.mp member
  exact OrderedDict.mem_of_lookup (within.aliases aliasKey target found)

section

variable (p : PendingRestores τ)

include p

theorem dropEntry_within (canonical : Key) :
    (p.dropEntry canonical).Within p where
  registry := fun _ _ found => (dropEntry_registry_eq_some_iff.mp found).1
  aliases := fun _ _ found => (dropEntry_aliases_eq_some_iff.mp found).1

theorem evictAliased_within (canonical : Key) :
    (p.evictAliased canonical).Within p := by
  unfold evictAliased
  split
  · exact .refl p
  · next other isAlias =>
    split
    · exact p.dropEntry_within other
    · exact ⟨fun _ _ found => found, (p.dropEntry_within other).aliases⟩

theorem evictCanonical_within (cid : Key) :
    (p.evictCanonical cid).Within p := by
  unfold evictCanonical
  split
  · exact p.dropEntry_within cid
  · exact .refl p

theorem evictRemapped_within (cid canonical : Key) :
    (p.evictRemapped cid canonical).Within p := by
  unfold evictRemapped
  split
  · split
    · exact p.dropEntry_within _
    · exact .refl p
  · exact .refl p

end

theorem evictOldest_within (fuel : Nat) (p : PendingRestores τ) :
    (evictOldest fuel p).Within p := by
  induction fuel generalizing p with
  | zero => exact .refl p
  | succ fuel ih =>
    unfold evictOldest
    split
    · split
      · next evicted _ _ => exact (ih _).trans (p.dropEntry_within evicted)
      · exact .refl p
    · exact .refl p

theorem clearPendingRestore_within (p : PendingRestores τ) (rid cid : Key) :
    (p.clearPendingRestore rid cid).Within p := by
  rcases p.clearPendingRestore_cases rid cid with same | ⟨canonical, dropped⟩
  · rw [same]
    exact .refl p
  · rw [dropped]
    exact p.dropEntry_within canonical

structure StageEffect (p p' : PendingRestores τ) (rid : Key) (entry : PendingRestoreEntry τ) :
    Prop where
  registry : ∀ key stored, p'.registry.lookup key = some stored →
    (key = rid ∧ stored = entry) ∨ (key ≠ rid ∧ p.registry.lookup key = some stored)
  aliases : ∀ aliasKey target, p'.aliases.lookup aliasKey = some target →
    (target = rid ∧ aliasKey.truthy = true ∧ aliasKey ≠ rid) ∨
      p.aliases.lookup aliasKey = some target
  keyNotAlias : rid ∉ p'.aliases
  aliasNotKey : ∀ aliasKey, aliasKey ∈ p'.aliases →
    aliasKey ∈ p.aliases ∨ aliasKey ∉ p'.registry

theorem StageEffect.within {p : PendingRestores τ} (effect : p.StageEffect p' rid entry)
    (within : p''.Within p') : p.StageEffect p'' rid entry where
  registry := fun key stored found => effect.registry key stored (within.registry _ _ found)
  aliases := fun aliasKey target found => effect.aliases aliasKey target (within.aliases _ _ found)
  keyNotAlias := fun member => effect.keyNotAlias (within.mem_aliases member)
  aliasNotKey := fun aliasKey member =>
    (effect.aliasNotKey aliasKey (within.mem_aliases member)).imp_right (mt within.mem)

theorem insert_stageEffect {p q : PendingRestores τ} (within : q.Within p)
    (notAlias : q.aliases.lookup rid = none) (entry : PendingRestoreEntry τ) :
    p.StageEffect { q with registry := q.registry.insert rid entry } rid entry := by
  have kept := within.registry
  have linked := within.aliases
  exact ⟨by grind, by grind, by grind, fun _ member => .inl (within.mem_aliases member)⟩

theorem evictCanonical_absent (p : PendingRestores τ) (cid : Key) :
    cid ∉ (p.evictCanonical cid).registry := by
  unfold evictCanonical
  split
  · exact fun member => (mem_dropEntry.mp member).1 rfl
  · next absent => exact absent

/-- The alias is written last, when no entry is left under the conversation id. -/
theorem StageEffect.mapConversation {p q : PendingRestores τ} (effect : p.StageEffect q rid entry)
    (cid : Key) :
    p.StageEffect (q.mapConversation cid rid) rid entry := by
  unfold PendingRestores.mapConversation
  split
  · next guarded =>
    have remapped := (q.evictCanonical cid).evictRemapped_within cid rid
    have evicted := effect.within (remapped.trans (q.evictCanonical_within cid))
    have absent := mt remapped.mem (q.evictCanonical_absent cid)
    obtain ⟨registry, aliases, keyNotAlias, aliasNotKey⟩ := evicted
    constructor <;> grind
  · exact effect

theorem stagePendingRestore_effect (p : PendingRestores τ) (now : Nat) (rid cid : Key)
    (convStates : List τ) (temporalStates : τ) (fillIds : Option (List Nat)) :
    p.StageEffect
      (p.stagePendingRestore now rid cid convStates temporalStates fillIds) rid
      (newEntry now cid convStates temporalStates fillIds) := by
  have within := ((p.dropEntry rid).evictAliased_within rid).trans (p.dropEntry_within rid)
  have notAlias := (p.dropEntry rid).evictAliased_notAlias rid
  have inserted := insert_stageEffect within notAlias
    (newEntry now cid convStates temporalStates fillIds)
  exact (inserted.mapConversation cid).within (evictOldest_within _ _)

end PendingRestores

open PendingRestores

variable {τ : Type} [Torch τ] {s : RegistryState τ} {key rid cid : Key}
  {entry : PendingRestoreEntry τ} {time : Nat} {p' : PendingRestores τ}

theorem hydrate_within (p : PendingRestores τ) (mambaPool : Option (MambaPool τ)) (req : Req) :
    (maybeHydrateFromPendingRestore p mambaPool req).2.1.Within p := by
  have same := hydrate_sameLookups p mambaPool req
  exact ⟨fun key _ found => (same.registry key).symm.trans found,
    fun key _ found => (same.aliases key).symm.trans found⟩

/-! ### Facts about every reachable registry

They need no assumption on the keys: a staging without a request id keeps them too.
-/

structure RegistryState.Ordered (s : RegistryState τ) : Prop where
  aliasNotKey : ∀ aliasKey, aliasKey ∈ s.pending.aliases → aliasKey ∉ s.pending.registry
  aliasTruthy : ∀ aliasKey target, s.pending.aliases.lookup aliasKey = some target →
    aliasKey.truthy = true ∧ aliasKey ≠ target
  staged : ∀ key entry, s.pending.registry.lookup key = some entry → entry.timestamp < s.clock

omit [Torch τ] in
theorem RegistryState.Ordered.within (ordered : s.Ordered) {p : PendingRestores τ}
    (within : p.Within s.pending) :
    Ordered { s with pending := p } where
  aliasNotKey := fun aliasKey member isKey =>
    ordered.aliasNotKey aliasKey (within.mem_aliases member) (within.mem isKey)
  aliasTruthy := fun aliasKey target found =>
    ordered.aliasTruthy aliasKey target (within.aliases aliasKey target found)
  staged := fun key entry found => ordered.staged key entry (within.registry key entry found)

theorem RegistryState.step_ordered (ordered : s.Ordered) (op : RegistryOp τ) :
    (s.step op).Ordered := by
  cases op with
  | stage rid cid convStates temporalStates fillIds =>
    have effect := s.pending.stagePendingRestore_effect s.clock rid cid convStates
      temporalStates fillIds
    refine ⟨?_, ?_, ?_⟩
    · intro aliasKey member isKey
      rcases effect.aliasNotKey aliasKey member with old | absent
      · obtain ⟨entry, found⟩ := OrderedDict.mem_iff_lookup.mp isKey
        rcases effect.registry aliasKey entry found with ⟨rfl, -⟩ | ⟨-, stored⟩
        · exact effect.keyNotAlias member
        · exact ordered.aliasNotKey aliasKey old (OrderedDict.mem_of_lookup stored)
      · exact absent isKey
    · intro aliasKey target found
      rcases effect.aliases aliasKey target found with ⟨rfl, truthy, different⟩ | old
      · exact ⟨truthy, different⟩
      · exact ordered.aliasTruthy aliasKey target old
    · intro key entry found
      rcases effect.registry key entry found with ⟨-, rfl⟩ | ⟨-, old⟩
      · exact Nat.lt_succ_self s.clock
      · exact Nat.lt_succ_of_lt (ordered.staged key entry old)
  | clear rid cid =>
    exact ordered.within (s.pending.clearPendingRestore_within rid cid)
  | hydrate mambaPool req =>
    exact ordered.within (hydrate_within s.pending mambaPool req)

theorem RegistryState.run_ordered (ops : List (RegistryOp τ)) : (initial.run ops).Ordered := by
  refine List.foldlRecOn ops step ?_ (fun s ordered op _ => step_ordered ordered op)
  exact ⟨nofun, nofun, nofun⟩

/-! ### The clearing itself -/

section Clear

variable {p : PendingRestores τ} {rid cid : Key} {entry : PendingRestoreEntry τ}

omit [Torch τ] in
theorem clear_registry_iff {key : String} :
    (p.clearPendingRestore rid cid).registry.lookup (some key) = some entry ↔
      p.registry.lookup (some key) = some entry ∧
        some key ≠ p.resolveForClear rid cid := by
  rw [clearPendingRestore]
  grind

omit [Torch τ] in
theorem clear_aliases_iff {aliasKey : Key} {key : String} :
    ((p.clearPendingRestore rid cid).aliases.lookup aliasKey = some (some key) ∧
        (p.clearPendingRestore rid cid).registry.lookup (some key) = some entry) ↔
      p.aliases.lookup aliasKey = some (some key) ∧
        p.registry.lookup (some key) = some entry ∧
        some key ≠ p.resolveForClear rid cid := by
  rw [clear_registry_iff, clearPendingRestore]
  grind

omit [Torch τ] in
theorem resolveForClear_of_mem (isString : rid ≠ none) (present : rid ∈ p.registry) :
    p.resolveForClear rid cid = rid := by
  simp [resolveForClear, present, isString]

omit [Torch τ] in
theorem resolveForClear_of_not_mem (absent : rid = none ∨ rid ∉ p.registry)
    (nonempty : cid.truthy = true) :
    p.resolveForClear rid cid = (p.aliases.lookup cid).join := by
  have missing : (if rid ∈ p.registry then rid else none) = none := by
    rcases absent with rfl | absent
    · simp
    · simp [absent]
  simp [resolveForClear, missing, nonempty]

end Clear

/-! ### Entries that can do no harm -/

def PendingRestoreEntry.Restorable (entry : PendingRestoreEntry τ) : Prop :=
  (validateStateTensors entry.convStates entry.temporalStates none false).isValid = true

/-- Staged at `time` or later, or with a state that no pool takes. -/
def PendingRestoreEntry.Harmless (time : Nat) (entry : PendingRestoreEntry τ) : Prop :=
  time ≤ entry.timestamp ∨ ¬ entry.Restorable

def PendingRestoreEntry.fittingPool (entry : PendingRestoreEntry τ) : MambaPool τ :=
  .init 1 (entry.convStates.map (fun t => ⟨Torch.dtype t, Torch.shape t⟩))
    ⟨Torch.dtype entry.temporalStates, Torch.shape entry.temporalStates⟩

theorem hydratedFrom_fittingPool {p : PendingRestores τ} {req : Req}
    (fresh : req.mambaPoolIdx = none)
    (source : p.entryFor req.rid req.conversationId = some (key, entry))
    (restorable : entry.Restorable) : HydratedFrom p entry.fittingPool req key entry := by
  refine (hydratedFrom_iff fresh ⟨1, [], rfl, Nat.le_refl 1, Nat.le_refl 1⟩).mpr ⟨source, ?_⟩
  refine ⟨restorable, ?_, rfl⟩
  simp [PendingRestoreEntry.fittingPool, MambaPool.init]

/-- Hydration answers `True` only after the state passed validation. -/
theorem HydratedFrom.restorable {p : PendingRestores τ} {pool : MambaPool τ} {req : Req}
    (hydrated : HydratedFrom p pool req key entry) :
    entry.Restorable := by
  have answer := hydrated.answer
  simp only [maybeHydrateFromPendingRestore, hydrated.source] at answer
  split at answer
  · cases answer
  split at answer
  · cases answer
  next slot pool' attached =>
  simp only [allocAndInject] at attached
  split at attached
  · split at attached
    · next injected written =>
      by_contra invalid
      simp only [PendingRestoreEntry.Restorable, Bool.not_eq_true] at invalid
      simp only [injectStateToPool] at written
      split at written
      · cases written
      split at written
      · cases written
      · simp at written
    · cases attached
  · cases attached

omit [Torch τ] in
theorem entryFor_eq_some {p : PendingRestores τ} {rid : String} {convId : Key}
    (found : p.entryFor rid convId = some (key, entry)) :
    p.registry.lookup key = some entry ∧ key ≠ none ∧
      ((some rid ∈ p.registry ∧ key = some rid) ∨
        (some rid ∉ p.registry ∧ convId.truthy = true ∧ convId ≠ some rid ∧
          p.aliases.lookup convId = some key)) := by
  simp only [PendingRestores.entryFor] at found
  split at found
  · cases found
  next isString =>
  obtain ⟨stored, lookup, pair⟩ := Option.map_eq_some_iff.mp found
  cases pair
  refine ⟨lookup, isString, ?_⟩
  simp only [resolveForHydrate] at isString ⊢
  by_cases staged : some rid ∈ p.registry
  · exact .inl ⟨staged, by simp [staged]⟩
  simp only [staged, if_false, true_and] at isString ⊢
  split at isString
  · next viaAlias =>
    rw [if_pos viaAlias]
    refine .inr ⟨not_false, viaAlias.1, viaAlias.2, ?_⟩
    cases target : p.aliases.lookup convId with
    | none => simp [target] at isString
    | some target' => rfl
  · exact absurd rfl isString

/-! ### Later operations bring no old entry back -/

def PendingRestores.NothingOld (p : PendingRestores τ) (time : Nat) : Prop :=
  ∀ key entry, p.registry.lookup (some key) = some entry → entry.Harmless time

/-- No harmful entry is left under `rid`, under `conversationId`, or under the key
    `conversationId` is an alias of. -/
structure PendingRestores.Forgotten (p : PendingRestores τ) (time : Nat)
    (rid conversationId : Key) : Prop where
  underRid : rid ≠ none → ∀ entry, p.registry.lookup rid = some entry → entry.Harmless time
  underConversation : ∀ entry, p.registry.lookup conversationId = some entry →
    entry.Harmless time
  throughAlias : ∀ key entry, p.aliases.lookup conversationId = some (some key) →
    p.registry.lookup (some key) = some entry → entry.Harmless time

theorem PendingRestores.Forgotten.within {p : PendingRestores τ}
    (forgotten : p.Forgotten time rid cid) (within : p'.Within p) : p'.Forgotten time rid cid := by
  obtain ⟨registry, aliases⟩ := within
  obtain ⟨underRid, underConversation, throughAlias⟩ := forgotten
  constructor <;> grind

theorem PendingRestores.Forgotten.stage {p : PendingRestores τ} {staged : Key}
    (forgotten : p.Forgotten time rid cid) (effect : p.StageEffect p' staged entry)
    (recent : time ≤ entry.timestamp) : p'.Forgotten time rid cid := by
  obtain ⟨registry, aliases, -, -⟩ := effect
  obtain ⟨underRid, underConversation, throughAlias⟩ := forgotten
  constructor <;> grind [PendingRestoreEntry.Harmless]

theorem RegistryState.step_clock_le (s : RegistryState τ) (op : RegistryOp τ) :
    s.clock ≤ (s.step op).clock := by
  cases op with
  | stage => exact Nat.le_succ s.clock
  | clear => exact Nat.le_refl s.clock
  | hydrate => exact Nat.le_refl s.clock

/-- A property of the registry that survives removals, and stagings from `time`
    on, survives every later run. -/
theorem RegistryState.run_preserves (P : PendingRestores τ → Prop)
    (within : ∀ p p', P p → p'.Within p → P p')
    (stage : ∀ p p' rid entry, P p → p.StageEffect p' rid entry → time ≤ entry.timestamp → P p')
    (holds : P s.pending) (recent : time ≤ s.clock) (ops : List (RegistryOp τ)) :
    P (s.run ops).pending := by
  induction ops generalizing s with
  | nil => exact holds
  | cons op ops ih =>
    refine ih ?_ (Nat.le_trans recent (s.step_clock_le op))
    cases op with
    | stage rid cid convStates temporalStates fillIds =>
      exact stage _ _ rid _ holds (s.pending.stagePendingRestore_effect s.clock rid
        cid convStates temporalStates fillIds) recent
    | clear rid cid =>
      exact within _ _ holds (s.pending.clearPendingRestore_within rid cid)
    | hydrate mambaPool req =>
      exact within _ _ holds (hydrate_within s.pending mambaPool req)

theorem run_nothingOld (holds : s.pending.NothingOld time) (recent : time ≤ s.clock)
    (ops : List (RegistryOp τ)) :
    (s.run ops).pending.NothingOld time := by
  refine RegistryState.run_preserves (fun p => p.NothingOld time) ?_ ?_ holds recent ops
  · intro p p' nothing smaller key entry found
    exact nothing key entry (smaller.registry _ _ found)
  · intro p p' rid entry nothing effect later key stored found
    rcases effect.registry (some key) stored found with ⟨-, rfl⟩ | ⟨-, old⟩
    · exact .inl later
    · exact nothing key stored old

theorem run_forgotten (holds : s.pending.Forgotten time rid cid) (recent : time ≤ s.clock)
    (ops : List (RegistryOp τ)) :
    (s.run ops).pending.Forgotten time rid cid :=
  RegistryState.run_preserves (fun p => p.Forgotten time rid cid)
    (fun _ _ forgotten smaller => forgotten.within smaller)
    (fun _ _ _ _ forgotten effect later => forgotten.stage effect later) holds recent ops

/-! ### When a clearing is final -/

/-- The id under which the registry finds the entry of a request. -/
def PendingRestores.matchedId (p : PendingRestores τ) (req : Req) : Key :=
  if some req.rid ∈ p.registry then some req.rid else req.conversationId

/-- After the clearing in state `s`, no later request that carries one of the two
    ids and satisfies `matching` is hydrated from an entry staged before. -/
def ClearedFor (s : RegistryState τ) (rid conversationId : Key)
    (matching : PendingRestores τ → Req → Prop) : Prop :=
  ∀ (ops : List (RegistryOp τ)) (pool : MambaPool τ) (req : Req) (key : Key)
    (entry : PendingRestoreEntry τ),
    let later := ((s.step (.clear rid conversationId)).run ops).pending
    (some req.rid = rid ∨ req.conversationId = conversationId) → matching later req →
      HydratedFrom later pool req key entry → s.clock ≤ entry.timestamp

theorem ClearedFor.now (ordered : s.Ordered) {matching : PendingRestores τ → Req → Prop}
    (cleared : ClearedFor s rid cid matching) (req : Req) (key : Key)
    (fresh : req.mambaPoolIdx = none) (carries : some req.rid = rid ∨ req.conversationId = cid)
    (matched : matching (s.pending.clearPendingRestore rid cid) req)
    (source : (s.pending.clearPendingRestore rid cid).entryFor req.rid
      req.conversationId = some (key, entry)) : ¬ entry.Restorable := by
  intro restorable
  have recent := cleared [] entry.fittingPool req key entry carries matched
    (hydratedFrom_fittingPool fresh source restorable)
  have stored := (s.pending.clearPendingRestore_within rid cid).registry key entry
    (entryFor_eq_some source).1
  have old := ordered.staged key entry stored
  omega

/-- For all requests with one of the ids, the clearing is final exactly when it
    resolves to the only restorable entry under a string key. -/
theorem clearedFor_all_iff (ordered : s.Ordered) :
    ClearedFor s rid cid (fun _ _ => True) ↔
      ∀ key entry, some key ≠ s.pending.resolveForClear rid cid →
        s.pending.registry.lookup (some key) = some entry → ¬ entry.Restorable := by
  constructor
  · intro cleared key entry unresolved stored
    have kept := clear_registry_iff.mpr ⟨stored, unresolved⟩
    have present := OrderedDict.mem_of_lookup kept
    -- a request under that key with the cleared conversation id
    refine cleared.now ordered { rid := key, conversationId := cid, originInputIds := [] }
      (some key)
      rfl (.inr rfl) trivial ?_
    simp [PendingRestores.entryFor, resolveForHydrate, present, kept]
  intro only ops pool req key entry later _ _ hydrated
  obtain ⟨stored, isString, -⟩ := entryFor_eq_some hydrated.source
  obtain ⟨text, rfl⟩ := Option.ne_none_iff_exists'.mp isString
  have nothing : (s.step (.clear rid cid)).pending.NothingOld s.clock := by
    intro other left found
    obtain ⟨old, unresolved⟩ := clear_registry_iff.mp found
    exact .inr (only other left unresolved old)
  rcases run_nothingOld nothing (Nat.le_refl _) ops text entry stored with recent | invalid
  · exact recent
  · exact absurd hydrated.restorable invalid

section Matched

variable {s : RegistryState τ} (ordered : s.Ordered) {rid : Key} {conversation : String}
  (nonempty : Key.truthy (some conversation) = true)

/-- The request is found under the cleared request id or the cleared conversation id. -/
def MatchedBy (rid conversationId : Key) (p : PendingRestores τ) (req : Req) : Prop :=
  p.matchedId req = rid ∨ p.matchedId req = conversationId

include ordered nonempty

/-- An entry whose key is the conversation id stays, and a request with that id as
    both its ids finds it. -/
theorem ClearedFor.not_restorable_under_conversation
    (cleared : ClearedFor s rid (some conversation) (MatchedBy rid (some conversation)))
    (different : some conversation ≠ rid)
    (stored : s.pending.registry.lookup (some conversation) = some entry) :
    ¬ entry.Restorable := by
  have unresolved : some conversation ≠ s.pending.resolveForClear rid (some conversation) := by
    by_cases present : rid ≠ none ∧ rid ∈ s.pending.registry
    · rw [resolveForClear_of_mem present.1 present.2]
      exact different
    · rw [resolveForClear_of_not_mem (by tauto) nonempty]
      intro self
      exact (ordered.aliasTruthy _ _ (Option.join_eq_some_iff.mp self.symm)).2 rfl
  have kept := clear_registry_iff.mpr ⟨stored, unresolved⟩
  have present := OrderedDict.mem_of_lookup kept
  refine cleared.now ordered
    { rid := conversation, conversationId := some conversation, originInputIds := [] }
    (some conversation) rfl (.inr rfl) ?_ ?_
  · simp [MatchedBy, matchedId]
  · simp [PendingRestores.entryFor, resolveForHydrate, present, kept]

/-- When the request id is a key, the entry that the conversation id is an alias of
    stays, and a request with both cleared ids finds it. -/
theorem ClearedFor.not_restorable_through_alias
    (cleared : ClearedFor s rid (some conversation) (MatchedBy rid (some conversation)))
    (isString : rid ≠ none) (present : rid ∈ s.pending.registry) {key : String}
    (different : some key ≠ rid)
    (linked : s.pending.aliases.lookup (some conversation) = some (some key))
    (stored : s.pending.registry.lookup (some key) = some entry) : ¬ entry.Restorable := by
  obtain ⟨text, rfl⟩ := Option.ne_none_iff_exists'.mp isString
  have resolved : s.pending.resolveForClear (some text) (some conversation) = some text :=
    resolveForClear_of_mem isString present
  obtain ⟨linked', kept⟩ := clear_aliases_iff.mpr ⟨linked, stored, resolved ▸ different⟩
  have gone : some text ∉
      (s.pending.clearPendingRestore (some text) (some conversation)).registry := by
    intro member
    obtain ⟨left, found⟩ := OrderedDict.mem_iff_lookup.mp member
    exact (clear_registry_iff.mp found).2 resolved.symm
  have apart : conversation ≠ text := by
    rintro rfl
    exact ordered.aliasNotKey _ (OrderedDict.mem_of_lookup linked) present
  refine cleared.now ordered
    { rid := text, conversationId := some conversation, originInputIds := [] } (some key)
    rfl (.inr rfl) ?_ ?_
  · simp [MatchedBy, matchedId, gone]
  · simp [PendingRestores.entryFor, resolveForHydrate, gone, nonempty, apart, linked', kept]

omit ordered

theorem forgotten_of_clear (noKey : some conversation ≠ rid → ∀ entry,
      s.pending.registry.lookup (some conversation) = some entry → ¬ entry.Restorable)
    (noAlias : rid ≠ none → rid ∈ s.pending.registry → ∀ key entry, some key ≠ rid →
      s.pending.aliases.lookup (some conversation) = some (some key) →
      s.pending.registry.lookup (some key) = some entry → ¬ entry.Restorable) :
    (s.step (.clear rid (some conversation))).pending.Forgotten s.clock rid
      (some conversation) := by
  have resolvedRid : rid ≠ none → rid ∈ s.pending.registry →
      s.pending.resolveForClear rid (some conversation) = rid := resolveForClear_of_mem
  refine ⟨?_, ?_, ?_⟩
  · intro isString left found
    obtain ⟨text, rfl⟩ := Option.ne_none_iff_exists'.mp isString
    obtain ⟨old, unresolved⟩ := clear_registry_iff.mp found
    exact absurd (resolvedRid isString (OrderedDict.mem_of_lookup old)).symm unresolved
  · intro left found
    obtain ⟨old, unresolved⟩ := clear_registry_iff.mp found
    refine .inr (noKey ?_ left old)
    rintro rfl
    exact unresolved (resolvedRid nofun (OrderedDict.mem_of_lookup old)).symm
  · intro target left linked found
    obtain ⟨oldLink, old, unresolved⟩ := clear_aliases_iff.mp ⟨linked, found⟩
    by_cases present : rid ≠ none ∧ rid ∈ s.pending.registry
    · rw [resolvedRid present.1 present.2] at unresolved
      exact .inr (noAlias present.1 present.2 target left unresolved oldLink old)
    · rw [resolveForClear_of_not_mem (by tauto) nonempty, oldLink] at unresolved
      exact absurd rfl unresolved

omit nonempty

theorem PendingRestores.Forgotten.recent {p : PendingRestores τ} {time : Nat}
    (forgotten : p.Forgotten time rid (some conversation)) {pool : MambaPool τ} {req : Req}
    {key : Key} (carries : some req.rid = rid ∨ req.conversationId = some conversation)
    (matched : MatchedBy rid (some conversation) p req)
    (hydrated : HydratedFrom p pool req key entry) : time ≤ entry.timestamp := by
  have usable : ¬ ¬ entry.Restorable := not_not.mpr hydrated.restorable
  obtain ⟨stored, isString, ⟨isKey, rfl⟩ | ⟨notKey, -, distinct, linked⟩⟩ :=
    entryFor_eq_some hydrated.source
  · simp only [MatchedBy, matchedId, isKey, if_true] at matched
    rcases matched with rfl | same
    · exact (forgotten.underRid isString entry stored).resolve_right usable
    · rw [same] at stored
      exact (forgotten.underConversation entry stored).resolve_right usable
  -- a request with the cleared id as request and conversation id makes no alias lookup
  have sameConversation : req.conversationId = some conversation := by
    simp only [MatchedBy, matchedId, notKey] at matched
    rcases carries with rfl | same
    · exact matched.resolve_left distinct
    · exact same
  obtain ⟨target, rfl⟩ := Option.ne_none_iff_exists'.mp isString
  rw [sameConversation] at linked
  exact (forgotten.throughAlias target entry linked stored).resolve_right usable

end Matched

/-- In every reachable registry, a clearing of `rid` and `conversationId` is final

    * for every later request with one of the ids, exactly when no other restorable
      entry is stored under a string key (a request may name that key as well), and
    * for every later request that is found under one of the two ids, exactly when
      the conversation id is no other key with a restorable entry, and is no alias
      of another such entry while the request id is a key. -/
theorem cleared_restore_stays_cleared_iff (ops : List (RegistryOp τ)) (rid conversationId : Key)
    (nonempty : conversationId.truthy = true) :
    let s := RegistryState.initial.run ops
    (ClearedFor s rid conversationId (fun _ _ => True) ↔
      ∀ key entry, some key ≠ s.pending.resolveForClear rid conversationId →
        s.pending.registry.lookup (some key) = some entry → ¬ entry.Restorable) ∧
    (ClearedFor s rid conversationId (MatchedBy rid conversationId) ↔
      (conversationId ≠ rid → ∀ entry,
          s.pending.registry.lookup conversationId = some entry → ¬ entry.Restorable) ∧
        (rid ≠ none → rid ∈ s.pending.registry → ∀ key entry, some key ≠ rid →
          s.pending.aliases.lookup conversationId = some (some key) →
          s.pending.registry.lookup (some key) = some entry → ¬ entry.Restorable)) := by
  intro s
  have ordered : s.Ordered := RegistryState.run_ordered ops
  refine ⟨clearedFor_all_iff ordered, ?_⟩
  obtain ⟨conversation, rfl⟩ :=
    Option.ne_none_iff_exists'.mp (Key.ne_none_of_truthy nonempty)
  constructor
  · intro cleared
    exact ⟨fun different entry stored =>
        cleared.not_restorable_under_conversation ordered nonempty different stored,
      fun isString present key entry different linked stored =>
        cleared.not_restorable_through_alias ordered nonempty isString present different linked
          stored⟩
  · rintro ⟨noKey, noAlias⟩ laterOps pool req key entry later carries matched hydrated
    have forgotten := run_forgotten (forgotten_of_clear nonempty noKey noAlias) (Nat.le_refl _)
      laterOps
    exact forgotten.recent carries matched hydrated

/-- One staged restore, cleared by its own two ids, never comes back. -/
theorem cleared_restore_stays_cleared_single :
    let tensor : IntTensor := ⟨.float32, [1], [5]⟩
    let s := RegistryState.initial.run [.stage (some "r") (some "c") [tensor] tensor none]
    ClearedFor s (some "r") (some "c") (fun _ _ => True) := by
  intro tensor s
  refine (cleared_restore_stays_cleared_iff
    [.stage (some "r") (some "c") [tensor] tensor none] (some "r") (some "c")
    (by decide)).1.mpr ?_
  intro key entry unresolved stored
  have listed := OrderedDict.lookup_eq_some_iff.mp stored
  have items : s.pending.registry.items =
      [(some "r", newEntry 0 (some "c") [tensor] tensor none)] := by
    decide
  rw [items, List.mem_singleton] at listed
  cases listed
  exact absurd (by decide) unresolved

/-- The two ids were staged separately: clearing `r1` and `c2` removes the entry of
    `r1` alone, and the next request of conversation `c2` is hydrated from the entry
    staged before; so is one with `c2` as its request id when `c2` is a key. -/
theorem cleared_restore_returns :
    let tensor : IntTensor := ⟨.float32, [1], [5]⟩
    let spec : TensorSpec := ⟨.float32, [1]⟩
    let pool := MambaPool.init 1 [spec] spec
    let twoRestores := RegistryState.initial.run
      [.stage (some "r1") (some "c1") [tensor] tensor none,
       .stage (some "r2") (some "c2") [tensor] tensor none]
    let ownKey := RegistryState.initial.run
      [.stage (some "c2") (some "c2") [tensor] tensor none]
    (1 < twoRestores.clock ∧
      HydratedFrom (twoRestores.step (.clear (some "r1") (some "c2"))).pending pool
        { rid := "q", conversationId := some "c2", originInputIds := [7] } (some "r2")
        (newEntry 1 (some "c2") [tensor] tensor none)) ∧
    (0 < ownKey.clock ∧
      HydratedFrom (ownKey.step (.clear (some "r1") (some "c2"))).pending pool
        { rid := "c2", conversationId := some "c2", originInputIds := [7] } (some "c2")
        (newEntry 0 (some "c2") [tensor] tensor none)) := by
  refine ⟨⟨by decide, ?_⟩, ⟨by decide, ?_⟩⟩
  · exact (hydratedFrom_iff rfl ⟨1, [], by decide⟩).mpr ⟨by decide, by decide⟩
  · exact (hydratedFrom_iff rfl ⟨1, [], by decide⟩).mpr ⟨by decide, by decide⟩

end Engram.Restore
