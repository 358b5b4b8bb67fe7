import Engram.Restore.Coherence

/-!
# What a staged restore reaches

After a staging, and any number of hydrations, the entry is still the one under its key. Which
requests find it depends on the keys alone (`staged_restore_hydrates_iff`): one with the staged
request id always does, one with the staged conversation id only through the alias. There is no
alias when the staging has no request id of its own, and no alias lookup for a request whose id is
the conversation id.
-/

namespace Engram.Restore

open Lib Memory Snapshot Scheduler

namespace PendingRestores

variable {τ : Type} {p : PendingRestores τ} {canonical : Key} {entry : PendingRestoreEntry τ}

structure Newest (p : PendingRestores τ) (canonical : Key) (entry : PendingRestoreEntry τ) :
    Prop where
  newest : p.registry.EndsWith canonical entry
  aliased : p.aliases.lookup entry.conversationId =
    if entry.conversationId = canonical then none else some canonical

theorem evictAliased_absent (absent : canonical ∉ p.registry) :
    canonical ∉ (p.evictAliased canonical).registry := by
  unfold evictAliased
  split
  · exact absent
  · split
    · intro member
      exact absent (OrderedDict.mem_erase.mp member).2
    · exact absent

/-- "Case B" removes the alias under the new key along with its siblings. -/
theorem evictAliased_notAlias (p : PendingRestores τ) (canonical : Key) :
    (p.evictAliased canonical).aliases.lookup canonical = none := by
  unfold evictAliased
  split
  · next notAlias => exact notAlias
  · next other isAlias =>
    simp [OrderedDict.lookup_eraseValue, isAlias]

theorem mapConversation_newest (nonempty : entry.conversationId.truthy = true)
    (newest : p.registry.EndsWith canonical entry) (notAlias : p.aliases.lookup canonical = none) :
    (p.mapConversation entry.conversationId canonical).Newest canonical entry := by
  unfold mapConversation
  split
  · next guarded =>
    -- neither removal is of the new key: the first is guarded by the branch, the
    -- second by the test inside `evictRemapped`
    have first : (p.evictCanonical entry.conversationId).registry.EndsWith canonical entry := by
      unfold evictCanonical
      split
      · exact newest.erase guarded.2.symm
      · exact newest
    have second : ((p.evictCanonical entry.conversationId).evictRemapped entry.conversationId
        canonical).registry.EndsWith canonical entry := by
      unfold evictRemapped
      split
      · split
        · next different => exact first.erase different.symm
        · exact first
      · exact first
    refine ⟨second, ?_⟩
    simp [OrderedDict.lookup_insert, guarded.2]
  · next unguarded =>
    have own : entry.conversationId = canonical := by
      by_contra different
      exact unguarded ⟨nonempty, different⟩
    refine ⟨newest, ?_⟩
    rw [if_pos own, own]
    exact notAlias

theorem evictOldest_newest (fuel : Nat) (newest : p.Newest canonical entry) :
    (evictOldest fuel p).Newest canonical entry := by
  induction fuel generalizing p with
  | zero => exact newest
  | succ fuel ih =>
    unfold evictOldest
    split
    · next tooMany =>
      split
      · next evicted oldest head =>
        have long : 1 < p.registry.size := by
          simp only [pendingRestoreRegistryMax] at tooMany
          omega
        have different := newest.newest.first?_ne long head
        refine ih ⟨newest.newest.erase different, ?_⟩
        simp only [dropEntry, OrderedDict.lookup_eraseValue, newest.aliased]
        split
        · rfl
        · simp [different]
      · exact newest
    · exact newest

theorem stagePendingRestore_newest (p : PendingRestores τ) (now : Nat) (rid cid : Key)
    (nonempty : cid.truthy = true) (convStates : List τ) (temporalStates : τ)
    (fillIds : Option (List Nat)) :
    (p.stagePendingRestore now rid cid convStates temporalStates fillIds).Newest rid
      (newEntry now cid convStates temporalStates fillIds) := by
  have dropped : rid ∉ (p.dropEntry rid).registry := fun member => (mem_dropEntry.mp member).1 rfl
  have absent := evictAliased_absent dropped
  have notAlias := (p.dropEntry rid).evictAliased_notAlias rid
  have conversation : (newEntry now cid convStates temporalStates
      fillIds).conversationId.truthy = true := nonempty
  exact evictOldest_newest _ (mapConversation_newest conversation
    (OrderedDict.endsWith_insert absent _) notAlias)

end PendingRestores

open PendingRestores

variable {τ : Type} [Torch τ] {p p' : PendingRestores τ} {entry : PendingRestoreEntry τ}

/-! ### Hydrations leave every lookup as it is -/

structure PendingRestores.SameLookups (p p' : PendingRestores τ) : Prop where
  registry : ∀ key, p'.registry.lookup key = p.registry.lookup key
  aliases : ∀ key, p'.aliases.lookup key = p.aliases.lookup key

theorem hydrate_sameLookups (p : PendingRestores τ) (mambaPool : Option (MambaPool τ))
    (req : Req) : p.SameLookups (maybeHydrateFromPendingRestore p mambaPool req).2.1 := by
  rcases hydrate_pending_cases p mambaPool req with same | ⟨canonical, moved⟩
  · rw [same]
    exact ⟨fun _ => rfl, fun _ => rfl⟩
  · rw [moved]
    exact ⟨fun key => OrderedDict.lookup_moveToEnd .., fun _ => rfl⟩

def hydrations (requests : List (Option (MambaPool τ) × Req)) : List (RegistryOp τ) :=
  requests.map (fun request => .hydrate request.1 request.2)

theorem run_hydrations_sameLookups (s : RegistryState τ)
    (requests : List (Option (MambaPool τ) × Req)) :
    s.pending.SameLookups (s.run (hydrations requests)).pending := by
  induction requests generalizing s with
  | nil => exact ⟨fun _ => rfl, fun _ => rfl⟩
  | cons request requests ih =>
    have first := hydrate_sameLookups s.pending request.1 request.2
    have rest := ih (s.step (.hydrate request.1 request.2))
    exact ⟨fun key => (rest.registry key).trans (first.registry key),
      fun key => (rest.aliases key).trans (first.aliases key)⟩

omit [Torch τ] in
theorem PendingRestores.SameLookups.mem_iff (same : p.SameLookups p') (key : Key) :
    key ∈ p'.registry ↔ key ∈ p.registry := by
  rw [OrderedDict.mem_iff_lookup, OrderedDict.mem_iff_lookup, same.registry key]

omit [Torch τ] in
theorem PendingRestores.SameLookups.entryFor (same : p.SameLookups p') (rid : String)
    (convId : Key) :
    p'.entryFor rid convId = p.entryFor rid convId := by
  have resolved : p'.resolveForHydrate rid convId = p.resolveForHydrate rid convId := by
    unfold resolveForHydrate
    by_cases staged : some rid ∈ p.registry
    · simp [staged, (same.mem_iff (some rid)).mpr staged]
    · simp [staged, mt (same.mem_iff (some rid)).mp staged, same.aliases]
  simp only [PendingRestores.entryFor, resolved, same.registry]

/-! ### Which requests find the staged entry -/

omit [Torch τ] in
/-- With the staged entry newest, a request that carries one of its two keys
    finds it under exactly this condition on the keys. -/
theorem PendingRestores.Newest.entryFor_iff {canonical : Key} (newest : p.Newest canonical entry)
    (nonempty : entry.conversationId.truthy = true) {req : Req}
    (carries : some req.rid = canonical ∨
      (req.conversationId = entry.conversationId ∧ some req.rid ∉ p.registry)) :
    p.entryFor req.rid req.conversationId = some (canonical, entry) ↔
      some req.rid = canonical ∨
        (canonical ≠ none ∧ entry.conversationId ≠ canonical ∧
          entry.conversationId ≠ some req.rid) := by
  have stored := newest.newest.lookup
  have present := OrderedDict.mem_of_lookup stored
  by_cases sameRid : some req.rid = canonical
  · -- found under the request id, whatever the conversation
    subst sameRid
    simp [PendingRestores.entryFor, resolveForHydrate, present, stored]
  obtain ⟨conversation, unstaged⟩ := carries.resolve_left sameRid
  simp only [PendingRestores.entryFor, resolveForHydrate, unstaged, if_false, true_and,
    conversation, nonempty, sameRid, false_or, newest.aliased]
  by_cases ownRid : entry.conversationId = some req.rid
  · simp [ownRid]
  by_cases own : entry.conversationId = canonical
  · simp [own]
  cases canonical with
  | none => simp [own]
  | some key => simp [ownRid, own, stored]

/-! ### Hydration from the staged entry -/

/-- The call hydrates `req` from the entry stored under `key`: it answers `True`
    and the slot it attaches holds the entry's state. -/
structure HydratedFrom (p : PendingRestores τ) (pool : MambaPool τ) (req : Req) (key : Key)
    (entry : PendingRestoreEntry τ) : Prop where
  answer : (maybeHydrateFromPendingRestore p (some pool) req).1 = .hydrated
  source : p.entryFor req.rid req.conversationId = some (key, entry)
  state : ∃ slot pool', (maybeHydrateFromPendingRestore p (some pool) req).2.2.1 = some pool' ∧
    (maybeHydrateFromPendingRestore p (some pool) req).2.2.2.mambaPoolIdx = some slot ∧
    pool'.cache slot = injectedState pool entry.convStates entry.temporalStates

theorem hydratedFrom_iff {pool : MambaPool τ} {req : Req} {key : Key}
    (fresh : req.mambaPoolIdx = none) (available : pool.HasFreeSlot) :
    HydratedFrom p pool req key entry ↔
      p.entryFor req.rid req.conversationId = some (key, entry) ∧
        Injectable pool entry.convStates entry.temporalStates := by
  have succeeds : (allocAndInject entry pool).1.isSome = true ↔
      Injectable pool entry.convStates entry.temporalStates := allocAndInject_isSome_iff available
  constructor
  · rintro ⟨answer, source, -⟩
    refine ⟨source, succeeds.mp ?_⟩
    simp only [maybeHydrateFromPendingRestore, fresh, source, ne_eq, not_true_eq_false,
      if_false] at answer
    split at answer
    · cases answer
    · next attached => simp [attached]
  rintro ⟨source, injectable⟩
  obtain ⟨slot, taken⟩ := Option.isSome_iff_exists.mp (succeeds.mpr injectable)
  have called : allocAndInject entry pool = (some slot, (allocAndInject entry pool).2) :=
    Prod.ext taken rfl
  have answer : (maybeHydrateFromPendingRestore p (some pool) req).1 = .hydrated := by
    simp only [maybeHydrateFromPendingRestore, fresh, source, ne_eq, not_true_eq_false, if_false]
    rw [called]
  obtain ⟨slot', pool', result, state⟩ := hydrated_result answer source
  refine ⟨answer, source, slot', pool', ?_, ?_, state⟩
  · rw [result]
  · rw [result]

/-- After a staging under `rid` for `conversationId`, and any hydrations, a fresh
    request that carries the request id, or the conversation id under a request id
    that is no staged key, is hydrated from exactly that entry if and only if the
    pool can take the state and the keys lead to it: the request ids agree, or the
    restore had a request id, different from the conversation id, and the
    conversation id is not the request's own id. -/
theorem staged_restore_hydrates_iff (s : RegistryState τ) (rid conversationId : Key)
    (nonempty : conversationId.truthy = true) (convStates : List τ) (temporalStates : τ)
    (fillIds : Option (List Nat)) (requests : List (Option (MambaPool τ) × Req))
    (pool : MambaPool τ) (available : pool.HasFreeSlot) (req : Req)
    (fresh : req.mambaPoolIdx = none) :
    let later := (s.step (.stage rid conversationId convStates temporalStates fillIds)).run
      (hydrations requests)
    (some req.rid = rid ∨
        (req.conversationId = conversationId ∧ some req.rid ∉ later.pending.registry)) →
      (HydratedFrom later.pending pool req rid
          (newEntry s.clock conversationId convStates temporalStates fillIds) ↔
        Injectable pool convStates temporalStates ∧
          (some req.rid = rid ∨
            (rid ≠ none ∧ conversationId ≠ rid ∧ conversationId ≠ some req.rid))) := by
  intro later carries
  have staged := s.pending.stagePendingRestore_newest s.clock rid conversationId nonempty
    convStates temporalStates fillIds
  have same : (s.step (.stage rid conversationId convStates temporalStates
      fillIds)).pending.SameLookups later.pending := run_hydrations_sameLookups _ requests
  rw [same.mem_iff] at carries
  rw [hydratedFrom_iff fresh available, same.entryFor]
  have found := staged.entryFor_iff nonempty carries
  exact ⟨fun both => ⟨both.2, found.mp both.1⟩, fun both => ⟨found.mpr both.2, both.1⟩⟩

theorem staged_restore_hydrates_next_turn :
    let tensor : IntTensor := ⟨.float32, [1], [5]⟩
    let spec : TensorSpec := ⟨.float32, [1]⟩
    let later := ((RegistryState.initial.step
      (.stage (some "r") (some "c") [tensor] tensor none)).run (hydrations []))
    HydratedFrom later.pending (MambaPool.init 1 [spec] spec)
      { rid := "q", conversationId := some "c", originInputIds := [7] } (some "r")
      (newEntry 0 (some "c") [tensor] tensor none) := by
  intro tensor spec later
  refine (staged_restore_hydrates_iff .initial (some "r") (some "c") (by decide) [tensor] tensor
    none [] _ ⟨1, [], ?_⟩ _ rfl (.inr ⟨rfl, ?_⟩)).mpr ?_
  · decide
  · decide
  · decide

/-- The three ways in which the next turn of a staged conversation starts from an
    empty state although a slot is free: the restore named only the conversation,
    the next request uses the conversation id as its request id, or the restore
    used the conversation id as its request id. -/
theorem staged_restore_missed :
    let tensor : IntTensor := ⟨.float32, [1], [5]⟩
    let spec : TensorSpec := ⟨.float32, [1]⟩
    let pool := MambaPool.init 1 [spec] spec
    let staged (rid : Key) : PendingRestores IntTensor :=
      (RegistryState.initial.step (.stage rid (some "c") [tensor] tensor none)).pending
    let next (rid : String) : Req :=
      { rid, conversationId := some "c", originInputIds := [7] }
    pool.availableSize = 1 ∧
      some "q" ∉ (staged none).registry ∧
      (maybeHydrateFromPendingRestore (staged none) (some pool) (next "q")).1 = .miss ∧
      some "c" ∉ (staged (some "r")).registry ∧
      (maybeHydrateFromPendingRestore (staged (some "r")) (some pool) (next "c")).1 = .miss ∧
      some "q" ∉ (staged (some "c")).registry ∧
      (maybeHydrateFromPendingRestore (staged (some "c")) (some pool) (next "q")).1 = .miss := by
  decide

end Engram.Restore
