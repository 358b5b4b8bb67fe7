import Engram.Restore.Registry

/-!
# Coherence of the registry and its aliases

The registry and the alias map stay in step under every sequence of stagings, clearings and
hydrations (`run_consistent`). Every eviction removes one entry together with the aliases that
target it (`dropEntry`), which keeps the invariant; the insertion of a staged entry breaks only
the reachability of the new key, and the alias written last repairs it.
-/

namespace Engram.Restore

open Lib Memory Snapshot Scheduler

namespace PendingRestores

variable {τ : Type} {entry : PendingRestoreEntry τ}

structure AliasCoherent (p : PendingRestores τ) : Prop where
  aliasEntry : ∀ aliasKey target, p.aliases.lookup aliasKey = some target →
    ∃ entry, p.registry.lookup target = some entry ∧ entry.conversationId = aliasKey
  aliasNotKey : ∀ aliasKey, aliasKey ∈ p.aliases → aliasKey ∉ p.registry
  keyString : ∀ key, key ∈ p.registry → key ≠ none

def Reachable (p : PendingRestores τ) (key : Key) : Prop :=
  ∀ entry, p.registry.lookup key = some entry →
    entry.conversationId = key ∨ p.aliases.lookup entry.conversationId = some key

structure Coherent (p : PendingRestores τ) : Prop extends AliasCoherent p where
  reachable : ∀ key, p.Reachable key

structure Unlinked (p : PendingRestores τ) (key : Key) : Prop where
  notAlias : p.aliases.lookup key = none
  notTarget : ∀ aliasKey, p.aliases.lookup aliasKey ≠ some key

theorem empty_coherent : Coherent (empty : PendingRestores τ) := by
  constructor <;> grind [empty, AliasCoherent, Reachable]

/-! ### Dropping an entry -/

section Dropped

variable {p : PendingRestores τ} {canonical key aliasKey target : Key}
  {entry : PendingRestoreEntry τ}

@[grind =] theorem dropEntry_aliases_eq_some_iff :
    (p.dropEntry canonical).aliases.lookup aliasKey = some target ↔
      p.aliases.lookup aliasKey = some target ∧ target ≠ canonical := by
  simp [dropEntry, OrderedDict.lookup_eraseValue]

@[grind =] theorem dropEntry_aliases : (p.dropEntry canonical).aliases.lookup aliasKey =
    if p.aliases.lookup aliasKey = some canonical then none else p.aliases.lookup aliasKey := by
  ext target
  grind

@[grind =] theorem dropEntry_registry : (p.dropEntry canonical).registry.lookup key =
    if key = canonical then none else p.registry.lookup key :=
  OrderedDict.lookup_erase ..

theorem dropEntry_registry_eq_some_iff :
    (p.dropEntry canonical).registry.lookup key = some entry ↔
      p.registry.lookup key = some entry ∧ key ≠ canonical := by grind

theorem mem_dropEntry :
    key ∈ (p.dropEntry canonical).registry ↔ key ≠ canonical ∧ key ∈ p.registry :=
  OrderedDict.mem_erase

theorem dropEntry_aliasCoherent (coherent : p.AliasCoherent) (canonical : Key) :
    (p.dropEntry canonical).AliasCoherent := by
  obtain ⟨aliasEntry, aliasNotKey, keyString⟩ := coherent
  simp only [OrderedDict.mem_iff_ne_none] at aliasNotKey
  constructor <;> grind

theorem dropEntry_reachable (reachable : p.Reachable key) (canonical : Key) :
    (p.dropEntry canonical).Reachable key := by
  intro entry found
  obtain ⟨stored, different⟩ := dropEntry_registry_eq_some_iff.mp found
  rcases reachable entry stored with own | linked
  · exact .inl own
  · exact .inr (dropEntry_aliases_eq_some_iff.mpr ⟨linked, different⟩)

theorem dropEntry_coherent (coherent : p.Coherent) (canonical : Key) :
    (p.dropEntry canonical).Coherent where
  toAliasCoherent := dropEntry_aliasCoherent coherent.toAliasCoherent canonical
  reachable := fun key => dropEntry_reachable (coherent.reachable key) canonical

theorem dropEntry_unlinked (unlinked : p.Unlinked key) (canonical : Key) :
    (p.dropEntry canonical).Unlinked key := by
  obtain ⟨notAlias, notTarget⟩ := unlinked
  constructor <;> grind

end Dropped

/-! ### The phases of a staging -/

/-- Once nothing targets `canonical`, "case B" is the removal of one entry, after
    which `canonical` is unlinked. -/
theorem evictAliased_spec {p : PendingRestores τ} {canonical : Key} (coherent : p.Coherent)
    (absent : canonical ∉ p.registry)
    (notTarget : ∀ aliasKey, p.aliases.lookup aliasKey ≠ some canonical) :
    (p.evictAliased canonical).Coherent ∧ canonical ∉ (p.evictAliased canonical).registry ∧
      (p.evictAliased canonical).Unlinked canonical := by
  unfold evictAliased
  split
  · next notAlias => exact ⟨coherent, absent, notAlias, notTarget⟩
  · next other isAlias =>
    have different : other ≠ canonical := by
      rintro rfl
      exact notTarget _ isAlias
    rw [if_pos different]
    change (p.dropEntry other).Coherent ∧ _ ∉ (p.dropEntry other).registry ∧
      (p.dropEntry other).Unlinked canonical
    exact ⟨dropEntry_coherent coherent other, by grind, by constructor <;> grind⟩

section Staged

variable {p : PendingRestores τ} {fresh cid : Key} {entry : PendingRestoreEntry τ}

/-- The state between the insertion of the new entry and the write of its alias:
    coherent except that `fresh` need not be reachable. -/
structure Staging (p : PendingRestores τ) (fresh : Key) (entry : PendingRestoreEntry τ) :
    Prop where
  aliasCoherent : p.AliasCoherent
  reachable : ∀ key, key ≠ fresh → p.Reachable key
  unlinked : p.Unlinked fresh
  stored : p.registry.lookup fresh = some entry

theorem insert_staging (coherent : p.Coherent) (unlinked : p.Unlinked fresh)
    (isString : fresh ≠ none) (entry : PendingRestoreEntry τ) :
    Staging { p with registry := p.registry.insert fresh entry } fresh entry := by
  obtain ⟨⟨aliasEntry, aliasNotKey, keyString⟩, reachable⟩ := coherent
  refine ⟨?_, ?_, ⟨unlinked.notAlias, unlinked.notTarget⟩, by grind⟩
  · obtain ⟨notAlias, notTarget⟩ := unlinked
    constructor <;> grind
  · simp only [Reachable] at reachable ⊢
    grind

section

variable (staging : p.Staging fresh entry)

include staging

theorem Staging.dropEntry {canonical : Key}
    (different : fresh ≠ canonical) : (p.dropEntry canonical).Staging fresh entry where
  aliasCoherent := dropEntry_aliasCoherent staging.aliasCoherent canonical
  reachable := fun key other => dropEntry_reachable (staging.reachable key other) canonical
  unlinked := dropEntry_unlinked staging.unlinked canonical
  stored := dropEntry_registry_eq_some_iff.mpr ⟨staging.stored, different⟩

theorem Staging.evictCanonical (different : cid ≠ fresh) :
    (p.evictCanonical cid).Staging fresh entry ∧ cid ∉ (p.evictCanonical cid).registry := by
  unfold PendingRestores.evictCanonical
  split
  · exact ⟨staging.dropEntry different.symm, by grind⟩
  · next absent => exact ⟨staging, absent⟩

theorem Staging.evictRemapped (absent : cid ∉ p.registry) :
    (p.evictRemapped cid fresh).Staging fresh entry ∧
      cid ∉ (p.evictRemapped cid fresh).registry ∧
      (p.evictRemapped cid fresh).aliases.lookup cid = none := by
  unfold PendingRestores.evictRemapped
  cases found : p.aliases.lookup cid with
  | none => exact ⟨staging, absent, found⟩
  | some target =>
    obtain ⟨old, stored, -⟩ := staging.aliasCoherent.aliasEntry _ _ found
    have isString := staging.aliasCoherent.keyString _ (OrderedDict.mem_of_lookup stored)
    cases target with
    | none => exact absurd rfl isString
    | some oldCanonical =>
      have different : some oldCanonical ≠ fresh := by
        rintro rfl
        exact staging.unlinked.notTarget _ found
      simp only [if_pos different]
      exact ⟨staging.dropEntry different.symm, by grind, by grind⟩

theorem Staging.insertAlias (absent : entry.conversationId ∉ p.registry)
    (unmapped : p.aliases.lookup entry.conversationId = none) :
    Coherent { p with aliases := p.aliases.insert entry.conversationId fresh } := by
  obtain ⟨⟨aliasEntry, aliasNotKey, keyString⟩, reachable, ⟨notAlias, notTarget⟩, stored⟩ := staging
  refine ⟨⟨?_, ?_, keyString⟩, ?_⟩
  · grind
  · grind
  · intro key other found
    have := reachable key
    grind [Reachable]

theorem Staging.mapConversation (nonempty : entry.conversationId.truthy = true) :
    (p.mapConversation entry.conversationId fresh).Coherent ∧
      (p.mapConversation entry.conversationId fresh).registry.lookup fresh = some entry := by
  unfold PendingRestores.mapConversation
  split
  · next guarded =>
    obtain ⟨first, absent⟩ := staging.evictCanonical guarded.2
    obtain ⟨second, absent, unmapped⟩ := first.evictRemapped absent
    exact ⟨second.insertAlias absent unmapped, second.stored⟩
  · next unguarded =>
    -- the conversation id is the key itself, so the entry needs no alias
    refine ⟨⟨staging.aliasCoherent, fun key other found => ?_⟩, staging.stored⟩
    have := staging.stored
    have := staging.reachable key
    grind [Reachable]

end

end Staged

/-! ### The eviction loop -/

theorem evictOldest_coherent (fuel : Nat) {p : PendingRestores τ} (coherent : p.Coherent) :
    (evictOldest fuel p).Coherent := by
  induction fuel generalizing p with
  | zero => exact coherent
  | succ fuel ih =>
    unfold evictOldest
    split
    · split
      · next evicted _ _ => exact ih (dropEntry_coherent coherent evicted)
      · exact coherent
    · exact coherent

theorem evictOldest_size (fuel : Nat) (p : PendingRestores τ)
    (enough : p.registry.size ≤ fuel + pendingRestoreRegistryMax) :
    (evictOldest fuel p).registry.size ≤ pendingRestoreRegistryMax := by
  induction fuel generalizing p with
  | zero => simpa [evictOldest] using enough
  | succ fuel ih =>
    unfold evictOldest
    split
    · next tooMany =>
      split
      · next evicted entry head =>
        have member := OrderedDict.mem_of_lookup (OrderedDict.first?_mem head)
        have shrunk : (p.dropEntry evicted).registry.size + 1 = p.registry.size :=
          OrderedDict.size_erase_of_mem member
        exact ih (p.dropEntry evicted) (by omega)
      · next noHead =>
        have empty : p.registry.size = 0 := by
          rw [OrderedDict.first?, List.head?_eq_none_iff] at noHead
          exact List.length_eq_zero_iff.mpr noHead
        omega
    · next within => omega

/-! ### The operations -/

/-- Up to the eviction loop, a staging with string keys leaves a coherent registry
    that holds the new entry. -/
theorem stage_phases_coherent {p : PendingRestores τ} (coherent : p.Coherent) {rid : Key}
    (isString : rid ≠ none) (nonempty : entry.conversationId.truthy = true) :
    let dropped := (p.dropEntry rid).evictAliased rid
    let staged : PendingRestores τ :=
      { dropped with registry := dropped.registry.insert rid entry }
    (staged.mapConversation entry.conversationId rid).Coherent ∧
      (staged.mapConversation entry.conversationId rid).registry.lookup rid = some entry := by
  obtain ⟨evicted, -, unlinked⟩ :=
    @evictAliased_spec _ _ rid (dropEntry_coherent coherent rid) (by grind) (by grind)
  exact (insert_staging evicted unlinked isString entry).mapConversation nonempty

theorem stagePendingRestore_coherent {p : PendingRestores τ} (coherent : p.Coherent) (now : Nat)
    {rid cid : Key} (isString : rid ≠ none) (nonempty : cid.truthy = true) (convStates : List τ)
    (temporalStates : τ) (fillIds : Option (List Nat)) :
    (p.stagePendingRestore now rid cid convStates temporalStates fillIds).Coherent := by
  have conversation : (newEntry now cid convStates temporalStates
      fillIds).conversationId.truthy = true := nonempty
  exact evictOldest_coherent _ (stage_phases_coherent coherent isString conversation).1

theorem clearPendingRestore_cases (p : PendingRestores τ) (rid cid : Key) :
    p.clearPendingRestore rid cid = p ∨
      ∃ canonical, p.clearPendingRestore rid cid = p.dropEntry canonical := by
  unfold clearPendingRestore
  simp only
  split
  · exact .inl rfl
  · exact .inr ⟨_, rfl⟩

theorem moveToEnd_coherent {p : PendingRestores τ} (coherent : p.Coherent) (canonical : Key) :
    Coherent { p with registry := p.registry.moveToEnd canonical } := by
  obtain ⟨⟨aliasEntry, aliasNotKey, keyString⟩, reachable⟩ := coherent
  simp only [Reachable] at reachable
  refine ⟨by constructor <;> grind, fun key entry found => ?_⟩
  grind

end PendingRestores

open PendingRestores

variable {τ : Type} [Torch τ]

theorem hydrate_pending_cases (p : PendingRestores τ) (mambaPool : Option (MambaPool τ))
    (req : Req) :
    (maybeHydrateFromPendingRestore p mambaPool req).2.1 = p ∨
      ∃ canonical, (maybeHydrateFromPendingRestore p mambaPool req).2.1 =
        { p with registry := p.registry.moveToEnd canonical } := by
  unfold maybeHydrateFromPendingRestore
  split
  · exact .inl rfl
  split
  · exact .inl rfl
  split
  · exact .inl rfl
  split
  · exact .inl rfl
  · exact .inr ⟨_, rfl⟩

/-! ### Runs -/

/-- Stagings use a string request id and a non-empty conversation id. -/
def RegistryOp.WellKeyed : RegistryOp τ → Prop
  | .stage rid conversationId _ _ _ => rid ≠ none ∧ conversationId.truthy = true
  | .clear .. => True
  | .hydrate .. => True

structure RegistryState.Invariant (s : RegistryState τ) : Prop where
  coherent : s.pending.Coherent
  bounded : s.pending.registry.size ≤ pendingRestoreRegistryMax

theorem RegistryState.step_invariant {s : RegistryState τ} (invariant : s.Invariant)
    {op : RegistryOp τ} (wellKeyed : op.WellKeyed) : (s.step op).Invariant := by
  cases op with
  | stage rid cid convStates temporalStates fillIds =>
    exact ⟨stagePendingRestore_coherent invariant.coherent s.clock wellKeyed.1 wellKeyed.2
      convStates temporalStates fillIds, evictOldest_size _ _ (Nat.le_add_right ..)⟩
  | clear rid cid =>
    simp only [step]
    rcases s.pending.clearPendingRestore_cases rid cid with same | ⟨canonical, dropped⟩
    · rw [same]
      exact invariant
    · rw [dropped]
      exact ⟨dropEntry_coherent invariant.coherent canonical,
        Nat.le_trans (OrderedDict.size_erase_le ..) invariant.bounded⟩
  | hydrate mambaPool req =>
    simp only [step]
    rcases hydrate_pending_cases s.pending mambaPool req with same | ⟨canonical, moved⟩
    · rw [same]
      exact invariant
    · rw [moved]
      exact ⟨moveToEnd_coherent invariant.coherent canonical,
        Nat.le_trans (OrderedDict.size_moveToEnd ..) invariant.bounded⟩

theorem RegistryState.run_invariant (ops : List (RegistryOp τ))
    (wellKeyed : ∀ op ∈ ops, op.WellKeyed) : (initial.run ops).Invariant := by
  refine List.foldlRecOn ops step ⟨empty_coherent, Nat.zero_le _⟩ ?_
  intro s invariant op member
  exact step_invariant invariant (wellKeyed op member)

/-- The registry and the alias map as a reader of the scheduler relies on them. -/
structure PendingRestores.Consistent (p : PendingRestores τ) : Prop where
  aliasPresent : ∀ aliasKey target,
    p.aliases.lookup aliasKey = some target → target ∈ p.registry
  notKeyAndAlias : ∀ key, ¬ (key ∈ p.registry ∧ key ∈ p.aliases)
  aliasConversation : ∀ aliasKey target, p.aliases.lookup aliasKey = some target →
    ∃ entry, p.registry.lookup target = some entry ∧ entry.conversationId = aliasKey
  aliasUnique : ∀ aliasKey aliasKey' target, p.aliases.lookup aliasKey = some target →
    p.aliases.lookup aliasKey' = some target → aliasKey = aliasKey'
  conversationUnique : ∀ key key' entry entry', p.registry.lookup key = some entry →
    p.registry.lookup key' = some entry' → entry.conversationId = entry'.conversationId →
    key = key'
  bounded : p.registry.size ≤ 256

omit [Torch τ] in
theorem PendingRestores.Coherent.conversation_unique {p : PendingRestores τ} (coherent : p.Coherent)
    {key key' : Key} {entry entry' : PendingRestoreEntry τ} (stored : p.registry.lookup key = some entry)
    (stored' : p.registry.lookup key' = some entry')
    (same : entry.conversationId = entry'.conversationId) : key = key' := by
  have found := coherent.reachable key entry stored
  have found' := coherent.reachable key' entry' stored'
  have aliasNotKey := coherent.aliasNotKey
  simp only [OrderedDict.mem_iff_ne_none] at aliasNotKey
  grind

theorem RegistryState.run_consistent (ops : List (RegistryOp τ))
    (wellKeyed : ∀ op ∈ ops, op.WellKeyed) :
    (initial.run ops).pending.Consistent := by
  have invariant := run_invariant ops wellKeyed
  have coherent := invariant.coherent
  have aliasEntry := coherent.aliasEntry
  exact ⟨by grind, fun key both => coherent.aliasNotKey key both.2 both.1, aliasEntry, by grind,
    fun _ _ _ _ => coherent.conversation_unique, invariant.bounded⟩

/-- Two stagings whose keys cross, a hydration through an alias and a clearing. -/
theorem RegistryState.run_consistent_crossed_keys :
    let tensor : IntTensor := ⟨.float32, [1], [1]⟩
    let ops : List (RegistryOp IntTensor) :=
      [.stage (some "r") (some "c") [tensor] tensor none,
       .stage (some "c") (some "r") [tensor] tensor none,
       .hydrate none { rid := "q", conversationId := some "r", originInputIds := [7] },
       .clear none (some "r")]
    (initial.run ops).pending.Consistent := by
  refine run_consistent _ ?_
  intro op member
  simp only [List.mem_cons, List.not_mem_nil, or_false] at member
  rcases member with rfl | rfl | rfl | rfl
  · exact ⟨by decide, by decide⟩
  · exact ⟨by decide, by decide⟩
  · trivial
  · trivial

end Engram.Restore
