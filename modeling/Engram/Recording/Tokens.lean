import Engram.Recording.Life
import Engram.Scheduler.Accounting

/-!
# Recorded tokens

`fill_ids` is refreshed when a request is prefilled, and at no other time. A snapshot therefore
records what its state has consumed only if nothing came before these tokens, as a restored
history does, and nothing after them, as a decode step does (`recorded_tokens_match_iff`).
-/

namespace Engram.Recording

open Lib Lib.Transition Memory Restore Scheduler List
open Snapshot

variable {τ : Type} {history : List Nat} {decodes : Nat} {life life' : Life τ} {model : Model τ}
  {pool : MambaPool τ}

/-! ### What a prefill reads -/

variable (req : Req)

theorem place_eq (row slot : Nat) : ∃ rowIdx slotIdx clear, place req row slot =
    { req with reqPoolIdx := rowIdx, mambaPoolIdx := slotIdx, mambaNeedsClear := clear } := by
  unfold place
  simp only
  split
  · split
    · exact ⟨_, _, _, rfl⟩
    · exact ⟨_, _, _, rfl⟩
  · split
    · exact ⟨_, _, _, rfl⟩
    · exact ⟨_, _, _, rfl⟩

/-- A chunk is an initial part of the tokens that goes beyond the prefix; if it is not
    the whole, it has at least one token. -/
theorem truncate_spec (chunk : Option Nat) (fits : req.prefixLen ≤ req.fillIds.length)
    (settled : req.inflightMiddleChunks = 0) :
    ∃ len inflight, req.truncate chunk =
        { req with fillIds := req.fillIds.take len, inflightMiddleChunks := inflight } ∧
      req.prefixLen ≤ len ∧ inflight ≤ 1 ∧ (0 < inflight → 0 < len ∧ len < req.fillIds.length) := by
  unfold Req.truncate
  split
  · refine ⟨req.fillIds.length, 0, ?_, fits, by omega, by omega⟩
    rw [take_length, ← settled]
  · next len =>
    split
    · refine ⟨req.prefixLen + max 1 len, 1, ?_, by omega, by omega, by omega⟩
      rw [settled]
    · refine ⟨req.fillIds.length, 0, ?_, fits, by omega, by omega⟩
      rw [take_length, ← settled]

theorem take_append_extend {tokens : List Nat} {done len : Nat} (le : done ≤ len) :
    tokens.take done ++ (tokens.take len).drop done = tokens.take len := by
  have first : (tokens.take len).take done = tokens.take done := by
    rw [take_take, Nat.min_eq_left le]
  rw [← first, take_append_drop]

theorem accept_tokens (outcome : Outcome) :
    (req.accept outcome).fillIds = req.fillIds ∧
      (req.accept outcome).outputIds = req.outputIds ++ [outcome.token] := by
  obtain ⟨reason, len, left, same⟩ := req.accept_eq outcome
  rw [same]
  exact ⟨rfl, rfl⟩

/-- What `fill_ids` says about the state: `history` came before these tokens, and
    `decodes` decode steps after them. -/
structure Records (history : List Nat) (decodes : Nat) (life : Life τ) : Prop where
  waiting : life.phase = .waiting → life.req.reqPoolIdx = none ∧
    life.req.inflightMiddleChunks = 0 ∧
    (if life.req.mambaHasRestoredState then life.consumed = history else history = [])
  chunked : life.phase = .chunked → life.req.inflightMiddleChunks = 0 ∧ decodes = 0 ∧
    life.req.fillIds ≠ [] ∧
    life.req.fillIds =
      (life.req.originInputIds ++ life.req.outputIds).take life.req.fillIds.length
  running : life.phase = .running → life.req.outputIds ≠ []
  consumed : life.phase ≠ .waiting → ∃ decoded : List Nat, decoded.length = decodes ∧
    life.consumed = history ++ life.req.fillIds ++ decoded

/-- The restored history that is still in the state. -/
def keptHistory (history : List Nat) : Event → List Nat
  | .retract => []
  | _ => history

/-- Decode steps since the last prefill. -/
def decodesSince (count : Nat) : Event → Nat
  | .prefill .. => 0
  | .decode _ => count + 1
  | .retract => 0

theorem Records.nextRoundInput (records : Records history decodes life)
    (offered : life.phase = .waiting ∨ life.phase = .chunked) :
    life.nextRoundInput.inflightMiddleChunks = 0 ∧
      life.nextRoundInput.prefixLen ≤ life.nextRoundInput.fillIds.length ∧
      (if hasInitialState life.nextRoundInput then life.consumed else []) =
        history ++ life.nextRoundInput.fillIds.take life.nextRoundInput.prefixLen := by
  rcases offered with waiting | chunked
  · obtain ⟨_, settled, start⟩ := records.waiting waiting
    simp only [Life.nextRoundInput, waiting, hasInitialState, Req.resetFillIds]
    refine ⟨settled, Nat.zero_le _, ?_⟩
    cases flag : life.req.mambaHasRestoredState with
    | true => simpa [flag] using start
    | false =>
      have unrestored : history = [] := by simpa [flag] using start
      simp [unrestored]
  obtain ⟨settled, none, nonempty, tokens⟩ := records.chunked chunked
  obtain ⟨decoded, count, consumed⟩ := records.consumed (by simp [chunked])
  have nothing : decoded = [] := eq_nil_of_length_eq_zero (count.trans none)
  have positive : 0 < life.req.fillIds.length := length_pos_iff.mpr nonempty
  simp only [Life.nextRoundInput, chunked, hasInitialState, Req.resetFillIds]
  refine ⟨settled, ?_, ?_⟩
  · have bound := congrArg length tokens
    rw [length_take] at bound
    omega
  · rw [← tokens, consumed, nothing]
    simp [positive]

/-- What the prefill batch does with the tokens of an admitted request. -/
structure Extends (history : List Nat) (life : Life τ) (req : Req) : Prop where
  consumed : (if hasInitialState req then life.consumed else []) ++
    req.fillIds.drop req.prefixLen = history ++ req.fillIds
  oneChunk : req.inflightMiddleChunks ≤ 1
  inChunk : req.inChunk = true → req.fillIds ≠ [] ∧
    req.fillIds = (req.originInputIds ++ req.outputIds).take req.fillIds.length

section

variable (records : Records history decodes life)

include records

theorem Records.admitted (offered : life.phase = .waiting ∨ life.phase = .chunked)
    (chunk : Option Nat)
    (row slot : Nat) : Extends history life (life.admitted chunk row slot).clearDeferred := by
  obtain ⟨settled, fits, start⟩ := records.nextRoundInput offered
  have total : life.nextRoundInput.originInputIds ++ life.nextRoundInput.outputIds =
      life.nextRoundInput.fillIds := by
    unfold Life.nextRoundInput
    split
    · rfl
    · rfl
  unfold Life.admitted
  generalize life.nextRoundInput = input at settled fits start total ⊢
  obtain ⟨len, inflight, cut, beyond, one, partly⟩ := truncate_spec input chunk fits settled
  obtain ⟨rowIdx, slotIdx, clear, placed⟩ := place_eq (input.truncate chunk) row slot
  rw [placed, cut]
  constructor
  · -- what the state has consumed before is the history and the tokens of the prefix
    change (if hasInitialState input then life.consumed else []) ++
      (input.fillIds.take len).drop input.prefixLen = history ++ input.fillIds.take len
    rw [start, append_assoc, take_append_extend beyond]
  · exact one
  · intro middle
    obtain ⟨positive, inside⟩ := partly (of_decide_eq_true middle)
    have length : (input.fillIds.take len).length = len := by
      rw [length_take]
      omega
    change input.fillIds.take len ≠ [] ∧ input.fillIds.take len =
      (input.originInputIds ++ input.outputIds).take (input.fillIds.take len).length
    refine ⟨length_pos_iff.mp (by omega), ?_⟩
    rw [length, total]

theorem prefill_records [Torch τ] (offered : life.phase = .waiting ∨ life.phase = .chunked)
    (model : Model τ)
    (chunk : Option Nat) (row slot : Nat) (outcome : Outcome) :
    Records history 0 (life.prefill model chunk row slot outcome) := by
  have extended := records.admitted offered chunk row slot
  unfold Life.prefill
  simp only
  generalize (life.admitted chunk row slot).clearDeferred = req at extended ⊢
  have tokens := accept_tokens req outcome
  -- the pass goes on from the initial state, or starts from an empty one
  have consumed : (if hasInitialState req then life.consumed else []) ++
      req.fillIds.drop req.prefixLen = history ++ req.fillIds ++ [] := by
    rw [extended.consumed, append_nil]
  split
  · next middle =>
    obtain ⟨nonempty, part⟩ := extended.inChunk middle
    have single := extended.oneChunk
    constructor
    · intro waiting
      cases waiting
    · intro _
      exact ⟨by simp only [Req.endChunk]; omega, rfl, nonempty, part⟩
    · intro running
      cases running
    · exact fun _ => ⟨[], rfl, consumed⟩
  split
  · constructor
    · intro waiting
      cases waiting
    · intro chunked
      cases chunked
    · intro running
      cases running
    · intro _
      refine ⟨[], rfl, ?_⟩
      simp only [tokens.1]
      exact consumed
  · constructor
    · intro waiting
      cases waiting
    · intro chunked
      cases chunked
    · intro _
      simp [tokens.2]
    · intro _
      refine ⟨[], rfl, ?_⟩
      simp only [tokens.1]
      exact consumed

theorem decode_records (running : life.phase = .running) (model : Model τ) (outcome : Outcome) :
    Records history (decodes + 1) (life.decode model outcome) := by
  have tokens := accept_tokens life.req outcome
  obtain ⟨decoded, count, consumed⟩ := records.consumed (by simp [running])
  -- a running request has a last token
  have nonempty : life.req.originInputIds ++ life.req.outputIds ≠ [] := by
    simp [records.running running]
  have found := getLast?_eq_some_getLast nonempty
  have phase : (life.decode model outcome).phase = .finished ∨
      (life.decode model outcome).phase = .running := by
    unfold Life.decode
    simp only
    split
    · exact .inl rfl
    · exact .inr rfl
  constructor
  · intro waiting
    rw [waiting] at phase
    simp at phase
  · intro chunked
    rw [chunked] at phase
    simp at phase
  · intro _
    simp [Life.decode, tokens.2]
  · intro _
    refine ⟨decoded ++ [(life.req.originInputIds ++ life.req.outputIds).getLast nonempty],
      by simp [count], ?_⟩
    simp only [Life.decode, tokens.1, consumed, found, Option.toList_some, append_assoc]

end

theorem retract_records (life : Life τ) : Records [] 0 life.retract where
  waiting := fun _ => ⟨rfl, rfl, by simp [Life.retract]⟩
  chunked := by simp [Life.retract]
  running := by simp [Life.retract]
  consumed := by simp [Life.retract]

theorem step_records [Torch τ] {event : Event} (records : Records history decodes life)
    (stepped : step model life event = .ok life') :
    Records (keptHistory history event) (decodesSince decodes event) life' := by
  cases event with
  | prefill chunk row slot outcome =>
    simp only [step] at stepped
    split at stepped
    · next offered =>
      cases stepped
      exact prefill_records records offered model chunk row slot outcome
    · cases stepped
  | decode outcome =>
    simp only [step] at stepped
    split at stepped
    · next running =>
      cases stepped
      exact decode_records records running model outcome
    · cases stepped
  | retract =>
    simp only [step] at stepped
    split at stepped
    · cases stepped
      exact retract_records life
    · cases stepped

def emptyState [Torch τ] (pool : MambaPool τ) : SlotState τ where
  conv := pool.convSpecs.map (fun spec => Torch.zeros spec.dtype spec.shape)
  temporal := Torch.zeros pool.temporalSpec.dtype pool.temporalSpec.shape

/-- The state results from the empty one by forward passes over these tokens. -/
def Consumed [Torch τ] (model : Model τ) (pool : MambaPool τ) (tokens : List Nat)
    (state : SlotState τ) : Prop :=
  ∃ passes : List (List Nat), passes.flatten = tokens ∧
    state = passes.foldl model.forward (emptyState pool)

theorem Consumed.forward [Torch τ] {tokens : List Nat} {state : SlotState τ}
    (consumed : Consumed model pool tokens state) (pass : List Nat) :
    Consumed model pool (tokens ++ pass) (model.forward state pass) := by
  obtain ⟨passes, rfl, rfl⟩ := consumed
  exact ⟨passes ++ [pass], by simp, by simp⟩

/-- A request whose state counts has a slot, with nothing pending, and the state in it
    has consumed the tokens of the history. -/
structure Grounded [Torch τ] (model : Model τ) (life : Life τ) : Prop where
  copy : life.req.mambaCowSrcIndex = none
  clear : life.req.mambaNeedsClear = false
  state : life.phase ≠ .waiting ∨ life.req.mambaHasRestoredState = true →
    ∃ slot, life.req.mambaPoolIdx = some slot ∧
      Consumed model life.pool life.consumed (life.pool.cache slot)

theorem runDeferred_emptyState [Torch τ] (pool : MambaPool τ) (reqs : List Req) :
    emptyState (runDeferred pool reqs) = emptyState pool := by
  have cleared : ∀ slots : List Nat,
      (slots.foldl MambaPool.clearSlot pool).convSpecs = pool.convSpecs ∧
        (slots.foldl MambaPool.clearSlot pool).temporalSpec = pool.temporalSpec := by
    intro slots
    induction slots generalizing pool with
    | nil => exact ⟨rfl, rfl⟩
    | cons slot slots ih => exact ih (pool.clearSlot slot)
  obtain ⟨conv, temporal⟩ := cleared (clearSlots reqs)
  simp only [emptyState, runDeferred, MambaPool.copySlots, conv, temporal]

theorem place_slot (row slot : Nat) : ∃ own, (place req row slot).mambaPoolIdx = some own ∧
    ∀ held, req.mambaPoolIdx = some held →
      own = held ∧ (place req row slot).mambaNeedsClear = req.mambaNeedsClear := by
  have placed : (place req row slot).mambaPoolIdx = some (req.mambaPoolIdx.getD slot) ∧
      (req.mambaPoolIdx.isSome = true →
        (place req row slot).mambaNeedsClear = req.mambaNeedsClear) := by
    unfold place
    cases taken : req.mambaPoolIdx with
    | none => split <;> simp [taken]
    | some held => split <;> simp [taken]
  refine ⟨_, placed.1, fun held named => ⟨by simp [named], placed.2 (by simp [named])⟩⟩

theorem admitted_slot (life : Life τ) (chunk : Option Nat) (row slot : Nat) :
    ∃ own, (life.admitted chunk row slot).mambaPoolIdx = some own ∧
      (life.admitted chunk row slot).mambaCowSrcIndex = life.req.mambaCowSrcIndex ∧
      (life.admitted chunk row slot).mambaHasRestoredState = life.req.mambaHasRestoredState ∧
      (life.phase = .waiting → (life.admitted chunk row slot).prefixLen = 0) ∧
      ∀ held, life.req.mambaPoolIdx = some held → own = held ∧
        (life.admitted chunk row slot).mambaNeedsClear = life.req.mambaNeedsClear := by
  have cut : ∀ req : Req, ∃ ids inflight, req.truncate chunk =
      { req with fillIds := ids, inflightMiddleChunks := inflight } := by
    intro req
    unfold Req.truncate
    split
    · exact ⟨_, _, rfl⟩
    split
    · exact ⟨_, _, rfl⟩
    · exact ⟨_, _, rfl⟩
  have input : ∃ len, life.nextRoundInput = { life.req.resetFillIds with prefixLen := len } ∧
      (life.phase = .waiting → len = 0) := by
    unfold Life.nextRoundInput
    split
    · next chunked => exact ⟨_, rfl, by simp [chunked]⟩
    · exact ⟨_, rfl, fun _ => rfl⟩
  obtain ⟨len, start, first⟩ := input
  obtain ⟨ids, inflight, truncated⟩ := cut life.nextRoundInput
  obtain ⟨rowIdx, slotIdx, clear, placed⟩ :=
    place_eq (life.nextRoundInput.truncate chunk) row slot
  obtain ⟨own, named, kept⟩ := place_slot (life.nextRoundInput.truncate chunk) row slot
  have same : (life.nextRoundInput.truncate chunk).mambaPoolIdx = life.req.mambaPoolIdx ∧
      (life.nextRoundInput.truncate chunk).mambaNeedsClear = life.req.mambaNeedsClear := by
    rw [truncated, start]
    exact ⟨rfl, rfl⟩
  refine ⟨own, named, ?_, ?_, ?_, ?_⟩
  · rw [Life.admitted, placed, truncated, start]
    rfl
  · rw [Life.admitted, placed, truncated, start]
    rfl
  · intro waiting
    rw [Life.admitted, placed, truncated, start]
    exact first waiting
  · intro held holds
    obtain ⟨equal, unchanged⟩ := kept held (same.1.trans holds)
    exact ⟨equal, unchanged.trans same.2⟩

theorem forwardExtend_written [Torch τ] {req : Req} {own : Nat}
    (named : req.mambaPoolIdx = some own) :
    (forwardExtend model pool req).cache own =
        model.forward (initialState pool req own) (req.fillIds.drop req.prefixLen) ∧
      emptyState (forwardExtend model pool req) = emptyState pool := by
  unfold forwardExtend
  split
  · next unnamed =>
    rw [named] at unnamed
    cases unnamed
  · next slot found =>
    cases named.symm.trans found
    exact ⟨MambaPool.setSlot_cache_self .., rfl⟩

theorem Grounded.extended [Torch τ] (grounded : Grounded model life) (chunk : Option Nat)
    (row slot : Nat) :
    let req := (life.admitted chunk row slot).clearDeferred
    let pool := forwardExtend model (runDeferred life.pool [life.admitted chunk row slot]) req
    ∃ own, req.mambaPoolIdx = some own ∧
      Consumed model pool ((if hasInitialState req then life.consumed else []) ++
        req.fillIds.drop req.prefixLen) (pool.cache own) := by
  intro req pool
  obtain ⟨own, named, copy, flag, first, kept⟩ := admitted_slot life chunk row slot
  have owns : req.mambaPoolIdx = some own := named
  obtain ⟨written, same⟩ : pool.cache own =
      model.forward (initialState (runDeferred life.pool [life.admitted chunk row slot]) req own)
        (req.fillIds.drop req.prefixLen) ∧
      emptyState pool = emptyState (runDeferred life.pool [life.admitted chunk row slot]) :=
    forwardExtend_written owns
  refine ⟨own, named, ?_⟩
  unfold Consumed
  rw [written, same, runDeferred_emptyState]
  refine Consumed.forward ?_ _
  unfold initialState
  cases initial : hasInitialState req with
  | false =>
    -- a prefill from the first token starts from zero, whatever the slot holds
    have fromZero : ¬ (0 < req.prefixLen || req.mambaHasRestoredState) = true := by
      simpa [hasInitialState] using initial
    rw [if_neg fromZero]
    refine ⟨[], rfl, ?_⟩
    exact runDeferred_emptyState life.pool [life.admitted chunk row slot]
  | true =>
    have counts : life.phase ≠ .waiting ∨ life.req.mambaHasRestoredState = true := by
      rcases Bool.or_eq_true_iff.mp initial with longer | restored
      · left
        intro waiting
        have none : req.prefixLen = 0 := first waiting
        simp [none] at longer
      · exact .inr (flag.symm.trans restored)
    obtain ⟨held, holds, state⟩ := grounded.state counts
    obtain ⟨rfl, clear⟩ := kept held holds
    have fromSlot : (0 < req.prefixLen || req.mambaHasRestoredState) = true := initial
    rw [if_pos fromSlot]
    -- neither a clear nor a copy is pending for the slot
    have untouched : (runDeferred life.pool [life.admitted chunk row slot]).cache own =
        life.pool.cache own := by
      simp [runDeferred, clearSlots, cowPairs, MambaPool.copySlots, copy, grounded.copy, clear,
        grounded.clear]
    rw [untouched]
    exact state

/-- How the life of a request begins, and the tokens its state has consumed by then, as
    far as the state counts. -/
inductive Begins [Torch τ] (model : Model τ) : List Nat → Life τ → Prop
  /-- `handle_generate_request` without a staged snapshot -/
  | empty (cfg : Config) (recv : GenerateReq) (uid : Nat) (pool : MambaPool τ) :
      Begins model [] { req := validated cfg recv (recv.toReq uid), pool }
  /-- hydrated from a snapshot whose state has consumed `history` -/
  | hydrated {p p' : PendingRestores τ} {pool pool' : MambaPool τ} {req : Req} (cfg : Config)
      (recv : GenerateReq) (uid : Nat) (history : List Nat)
      (attempt : maybeHydrateFromPendingRestore p (some pool) (recv.toReq uid) =
        (.hydrated, p', some pool', req))
      (snapshot : ∀ slot ∈ req.mambaPoolIdx, Consumed model pool' history (pool'.cache slot)) :
      Begins model history { req := validated cfg recv req, pool := pool', consumed := history }
  /-- `create_new_request`: the slot is injected, but the tokens are replayed -/
  | created (uid : Nat) (rid : String) (conversation : Key) (slot : Nat) (ids : List Nat)
      (stateful : Bool) (pool : MambaPool τ) (history : List Nat) :
      Begins model []
        { req := restoredReq uid rid conversation slot ids stateful, pool, consumed := history }

section Runs

variable [Torch τ] {model : Model τ}

theorem hydrated_req {p p' : PendingRestores τ} {pool' : MambaPool τ} {req req' : Req}
    (attempt : maybeHydrateFromPendingRestore p (some pool) req =
      (.hydrated, p', some pool', req')) :
    ∃ slot conversation, req' = { req with
      mambaPoolIdx := some slot, mambaHasRestoredState := true,
      conversationId := conversation } := by
  unfold maybeHydrateFromPendingRestore at attempt
  split at attempt
  · cases attempt
  split at attempt
  · cases attempt
  simp only at attempt
  split at attempt
  · cases attempt
  · cases attempt
    exact ⟨_, _, rfl⟩

theorem Begins.records (begins : Begins model history life) : Records history 0 life := by
  cases begins with
  | empty cfg recv uid pool =>
    obtain ⟨ids, reason, same⟩ := validated_eq cfg recv (recv.toReq uid)
    rw [same]
    exact ⟨fun _ => ⟨rfl, rfl, rfl⟩, nofun, nofun, fun started => absurd rfl started⟩
  | hydrated cfg recv uid _ attempt snapshot =>
    obtain ⟨slot, conversation, rfl⟩ := hydrated_req attempt
    obtain ⟨ids, reason, same⟩ := validated_eq cfg recv { recv.toReq uid with
      mambaPoolIdx := some slot, mambaHasRestoredState := true, conversationId := conversation }
    rw [same]
    exact ⟨fun _ => ⟨rfl, rfl, rfl⟩, nofun, nofun, fun started => absurd rfl started⟩
  | created uid rid conversation slot ids stateful pool consumed =>
    exact ⟨fun _ => ⟨rfl, rfl, rfl⟩, nofun, nofun, fun started => absurd rfl started⟩

theorem Begins.grounded (begins : Begins model history life) : Grounded model life := by
  cases begins with
  | empty cfg recv uid pool =>
    obtain ⟨ids, reason, same⟩ := validated_eq cfg recv (recv.toReq uid)
    rw [same]
    exact ⟨rfl, rfl, by simp [GenerateReq.toReq]⟩
  | hydrated cfg recv uid _ attempt snapshot =>
    obtain ⟨slot, conversation, rfl⟩ := hydrated_req attempt
    obtain ⟨ids, reason, same⟩ := validated_eq cfg recv { recv.toReq uid with
      mambaPoolIdx := some slot, mambaHasRestoredState := true, conversationId := conversation }
    rw [same]
    exact ⟨rfl, rfl, fun _ => ⟨slot, rfl, snapshot slot rfl⟩⟩
  | created uid rid conversation slot ids stateful pool consumed =>
    exact ⟨rfl, rfl, by simp [restoredReq]⟩

variable [DecidableEq τ]

/-- The callback or the save handler stores the live state of the request. -/
def Stores (life : Life τ) (saved : StoredSnapshot τ) : Prop :=
  (∃ server now wanted, postForwardSnapshot server now wanted life = some saved) ∨
    ∃ server now recv, handleSaveSnapshot server now recv life = some saved

theorem Stores.facts {saved : StoredSnapshot τ} (stores : Stores life saved) :
    life.req.reqPoolIdx ≠ none ∧ saved.metadata.fillIds = some life.req.fillIds ∧
      saved.metadata.tokenCount = life.req.fillIds.length ∧
      ∀ slot ∈ life.req.mambaPoolIdx,
        life.pool.cache slot = ⟨saved.convStates, saved.temporalStates⟩ := by
  rcases stores with ⟨server, now, wanted, stored⟩ | ⟨server, now, recv, stored⟩
  · exact (storeLive_some (postForwardSnapshot_some stored).2).1
  · exact (storeLive_some stored).1

end Runs

end Engram.Recording
