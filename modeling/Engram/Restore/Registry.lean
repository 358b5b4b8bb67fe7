import Engram.Lib.OrderedDict
import Engram.Memory.MambaPool
import Engram.Scheduler.Request

/-!
# The pending-restore registry

`scheduler_pending_restore.py` and the functions of `scheduler_snapshot_handlers.py` on the
registry: staging a loaded snapshot, clearing it, and hydrating an incoming request from it. The
registry is keyed by the request id of the restore; a second map takes a conversation id to the
key its entry is stored under.
-/

namespace Engram.Restore

open Lib Memory Snapshot Scheduler

def pendingRestoreRegistryMax : Nat := 256

structure PendingRestoreEntry (τ : Type) where
  convStates : List τ
  temporalStates : τ
  fillIds : Option (List Nat)
  conversationId : Key
  timestamp : Nat
deriving DecidableEq

structure PendingRestores (τ : Type) where
  registry : OrderedDict Key (PendingRestoreEntry τ)
  aliases : OrderedDict Key Key

namespace PendingRestores

variable {τ : Type}

def empty : PendingRestores τ :=
  ⟨.empty, .empty⟩

def dropEntry (p : PendingRestores τ) (canonical : Key) : PendingRestores τ :=
  { registry := p.registry.erase canonical
    aliases := p.aliases.eraseValue canonical }

/-- "Case B" of `_stage_pending_restore`: the new canonical key is an alias of
    another entry, which is evicted. -/
def evictAliased (p : PendingRestores τ) (canonical : Key) : PendingRestores τ :=
  match p.aliases.lookup canonical with
  | none => p
  | some otherCanonical =>
    { registry :=
        if otherCanonical ≠ canonical then p.registry.erase otherCanonical else p.registry
      aliases := p.aliases.eraseValue otherCanonical }

def evictCanonical (p : PendingRestores τ) (conversationId : Key) : PendingRestores τ :=
  if conversationId ∈ p.registry then p.dropEntry conversationId else p

/-- "Finding 3": the conversation id was an alias of another entry. `get` answers
    `None` both for a missing alias and for one that targets `None`. -/
def evictRemapped (p : PendingRestores τ) (conversationId canonical : Key) :
    PendingRestores τ :=
  match p.aliases.lookup conversationId with
  | some (some oldCanonical) =>
    if some oldCanonical ≠ canonical then p.dropEntry (some oldCanonical) else p
  | _ => p

def mapConversation (p : PendingRestores τ) (conversationId canonical : Key) :
    PendingRestores τ :=
  if conversationId.truthy = true ∧ conversationId ≠ canonical then
    let p := p.evictCanonical conversationId
    let p := p.evictRemapped conversationId canonical
    { p with aliases := p.aliases.insert conversationId canonical }
  else p

/-- The eviction loop: drop the oldest entry while there are too many. The fuel
    bounds the number of rounds by the number of entries. -/
def evictOldest : Nat → PendingRestores τ → PendingRestores τ
  | 0, p => p
  | fuel + 1, p =>
    if p.registry.size > pendingRestoreRegistryMax then
      match p.registry.first? with
      | some (evictedCanonical, _) => evictOldest fuel (p.dropEntry evictedCanonical)
      | none => p
    else p

def newEntry (now : Nat) (conversationId : Key) (convStates : List τ) (temporalStates : τ)
    (fillIds : Option (List Nat)) : PendingRestoreEntry τ :=
  { convStates, temporalStates, fillIds, conversationId, timestamp := now }

def stagePendingRestore (p : PendingRestores τ) (now : Nat) (rid conversationId : Key)
    (convStates : List τ) (temporalStates : τ) (fillIds : Option (List Nat)) :
    PendingRestores τ :=
  let canonical := rid
  let p := p.dropEntry canonical
  let p := p.evictAliased canonical
  let entry := newEntry now conversationId convStates temporalStates fillIds
  let p := { p with registry := p.registry.insert canonical entry }
  let p := p.mapConversation conversationId canonical
  evictOldest p.registry.size p

def resolveForClear (p : PendingRestores τ) (rid conversationId : Key) : Key :=
  let canonical := if rid ∈ p.registry then rid else none
  if canonical = none ∧ conversationId.truthy = true then
    (p.aliases.lookup conversationId).join
  else canonical

def clearPendingRestore (p : PendingRestores τ) (rid conversationId : Key) :
    PendingRestores τ :=
  let canonical := p.resolveForClear rid conversationId
  if canonical = none ∨ canonical ∉ p.registry then p else p.dropEntry canonical

def resolveForHydrate (p : PendingRestores τ) (rid : String) (convId : Key) : Key :=
  let canonical := if some rid ∈ p.registry then some rid else none
  if canonical = none ∧ convId.truthy = true ∧ convId ≠ some rid then
    (p.aliases.lookup convId).join
  else canonical

/-- The entry a request with these ids is hydrated from, with its key. -/
def entryFor (p : PendingRestores τ) (rid : String) (convId : Key) :
    Option (Key × PendingRestoreEntry τ) :=
  let canonical := p.resolveForHydrate rid convId
  if canonical = none then none
  else (p.registry.lookup canonical).map (fun entry => (canonical, entry))

end PendingRestores

/-! ### Hydration -/

/-- The three answers of `_maybe_hydrate_from_pending_restore`. -/
inductive HydrateResult where
  /-- `None` -/
  | miss
  /-- `True` -/
  | hydrated
  /-- `False` -/
  | failed
deriving DecidableEq, Repr

def reconcileConversation (req : Req) (matchedViaRid : Bool) (entryConversation : Key) : Key :=
  if matchedViaRid = true ∧ req.conversationId.truthy = true ∧
      req.conversationId ≠ entryConversation then
    entryConversation
  else if req.conversationId.truthy = false then entryConversation
  else req.conversationId

variable {τ : Type} [Torch τ] {entry : PendingRestoreEntry τ} {pool : MambaPool τ}

def allocAndInject (entry : PendingRestoreEntry τ) (pool : MambaPool τ) :
    Option Nat × MambaPool τ :=
  match pool.alloc 1 with
  | some ([slot], allocated) =>
    match injectStateToPool entry.convStates entry.temporalStates allocated slot with
    | (none, injected) => (some slot, injected)
    | (some _, partially) => (none, partially.free [slot])
  | _ => (none, pool)

theorem allocAndInject_some {pool' : MambaPool τ} {slot : Nat}
    (hydrated : allocAndInject entry pool = (some slot, pool')) :
    pool.freeSlots = slot :: pool'.freeSlots ∧ pool'.size = pool.size ∧
      pool'.cache slot = injectedState pool entry.convStates entry.temporalStates ∧
      ∀ other, other ≠ slot → pool'.cache other = pool.cache other := by
  unfold allocAndInject at hydrated
  split at hydrated
  · next slot' allocated taken =>
    obtain ⟨first, rest, listed, single, rfl⟩ := MambaPool.alloc_one_eq_some_iff.mp taken
    cases single
    split at hydrated
    · next injected written =>
      cases hydrated
      have frame := injectStateToPool_agreesOff entry.convStates entry.temporalStates
        { pool with freeSlots := rest } slot
      have state := injectStateToPool_slot entry.convStates entry.temporalStates
        { pool with freeSlots := rest } slot (by rw [written])
      rw [written] at frame state
      refine ⟨?_, frame.size, state, frame.others⟩
      rw [listed, frame.freeSlots]
    · cases hydrated
  · cases hydrated

/-- A failing call gives back what it took, at the end of the free list. -/
theorem allocAndInject_none {pool' : MambaPool τ}
    (failed : allocAndInject entry pool = (none, pool')) :
    pool' = pool ∨ ∃ slot rest, pool.freeSlots = slot :: rest ∧
      pool'.freeSlots = rest ++ [slot] ∧ pool'.size = pool.size ∧
      ∀ other, other ≠ slot → pool'.cache other = pool.cache other := by
  unfold allocAndInject at failed
  split at failed
  · next slot allocated taken =>
    obtain ⟨first, rest, listed, single, rfl⟩ := MambaPool.alloc_one_eq_some_iff.mp taken
    cases single
    split at failed
    · cases failed
    · next error partially raised =>
      cases failed
      have frame := injectStateToPool_agreesOff entry.convStates entry.temporalStates
        { pool with freeSlots := rest } slot
      rw [raised] at frame
      have kept : partially.freeSlots = rest := frame.freeSlots
      exact .inr ⟨slot, rest, listed, congrArg (· ++ [slot]) kept, frame.size, frame.others⟩
  · cases failed
    exact .inl rfl

theorem allocAndInject_isSome_iff (available : pool.HasFreeSlot) :
    (allocAndInject entry pool).1.isSome = true ↔
      Injectable pool entry.convStates entry.temporalStates := by
  obtain ⟨slot, rest, listed, inRange⟩ := available
  have taken : pool.alloc 1 = some ([slot], { pool with freeSlots := rest }) :=
    MambaPool.alloc_one_eq_some_iff.mpr ⟨slot, rest, listed, rfl, rfl⟩
  have injects := injectStateToPool_none_iff entry.convStates entry.temporalStates
    { pool with freeSlots := rest } slot inRange
  unfold allocAndInject
  rw [taken]
  simp only
  split
  · next injected written =>
    rw [written] at injects
    exact ⟨fun _ => injects.mp rfl, fun _ => rfl⟩
  · next error partially raised =>
    rw [raised] at injects
    simp only [reduceCtorEq, false_iff] at injects
    simp only [Option.isSome_none, Bool.false_eq_true, false_iff]
    exact injects

/-- `_maybe_hydrate_from_pending_restore`: the answer and what is left of the
    registry, the pool and the request. -/
def maybeHydrateFromPendingRestore (p : PendingRestores τ) (mambaPool : Option (MambaPool τ))
    (req : Req) : HydrateResult × PendingRestores τ × Option (MambaPool τ) × Req :=
  if req.mambaPoolIdx ≠ none then (.miss, p, mambaPool, req)
  else
    match p.entryFor req.rid req.conversationId with
    | none => (.miss, p, mambaPool, req)
    | some (canonical, entry) =>
      match mambaPool with
      | none => (.failed, p, mambaPool, req)
      | some pool =>
        match allocAndInject entry pool with
        | (none, pool') => (.failed, p, some pool', req)
        | (some slot, pool') =>
          (.hydrated, { p with registry := p.registry.moveToEnd canonical }, some pool',
            { req with
              mambaPoolIdx := some slot
              mambaHasRestoredState := true
              conversationId := reconcileConversation req (some req.rid ∈ p.registry)
                entry.conversationId })

theorem hydrated_result {p : PendingRestores τ} {req : Req} {key : Key}
    (answer : (maybeHydrateFromPendingRestore p (some pool) req).1 = .hydrated)
    (source : p.entryFor req.rid req.conversationId = some (key, entry)) :
    ∃ slot pool', maybeHydrateFromPendingRestore p (some pool) req =
        (.hydrated, { p with registry := p.registry.moveToEnd key }, some pool',
          { req with
            mambaPoolIdx := some slot
            mambaHasRestoredState := true
            conversationId := reconcileConversation req (some req.rid ∈ p.registry)
              entry.conversationId }) ∧
      pool'.cache slot = injectedState pool entry.convStates entry.temporalStates := by
  unfold maybeHydrateFromPendingRestore at answer ⊢
  split at answer
  · cases answer
  next fresh =>
  rw [if_neg fresh]
  simp only [source] at answer ⊢
  split at answer
  · cases answer
  · next slot pool' called =>
    exact ⟨slot, pool', rfl, (allocAndInject_some called).2.2.1⟩

/-! ### Runs of the registry -/

/-- One call on the registry. A hydration sees whatever pool the scheduler has at
    that moment. -/
inductive RegistryOp (τ : Type) where
  | stage (rid conversationId : Key) (convStates : List τ) (temporalStates : τ)
      (fillIds : Option (List Nat))
  | clear (rid conversationId : Key)
  | hydrate (mambaPool : Option (MambaPool τ)) (req : Req)

/-- The registry with the clock that `time.time()` reads; every staging happens
    at a later time than the one before. -/
structure RegistryState (τ : Type) where
  pending : PendingRestores τ
  clock : Nat

namespace RegistryState

def initial : RegistryState τ :=
  ⟨.empty, 0⟩

def step (s : RegistryState τ) : RegistryOp τ → RegistryState τ
  | .stage rid conversationId convStates temporalStates fillIds =>
    { pending := s.pending.stagePendingRestore s.clock rid conversationId convStates
        temporalStates fillIds
      clock := s.clock + 1 }
  | .clear rid conversationId =>
    { s with pending := s.pending.clearPendingRestore rid conversationId }
  | .hydrate mambaPool req =>
    { s with pending := (maybeHydrateFromPendingRestore s.pending mambaPool req).2.1 }

def run (s : RegistryState τ) (ops : List (RegistryOp τ)) : RegistryState τ :=
  ops.foldl step s

end RegistryState

end Engram.Restore
