import Engram.Radix.Accounts

/-!
# What the functions do to a request

Each function of `Requests` as a turn of the cache: the request gives in the pages and slots
that it owned and gets those that it owns afterwards. None of them fails with an assertion about
the length that a request caches.
-/

namespace Engram.Radix

open Lib Lib.Transition List

/-! ### Allocation -/

variable {pageSize : Nat}

theorem ceilDiv_eq {len k : Nat} (positive : 0 < pageSize) (fits : len ≤ k * pageSize)
    (tight : k * pageSize < len + pageSize) : ceilDiv len pageSize = k := by
  apply Nat.div_eq_of_lt_le
  · omega
  · rw [Nat.succ_mul]
    omega

theorem le_ceilDiv_mul (positive : 0 < pageSize) (len : Nat) :
    len ≤ ceilDiv len pageSize * pageSize ∧ ceilDiv len pageSize * pageSize < len + pageSize := by
  have division := Nat.div_add_mod' (len + pageSize - 1) pageSize
  have remainder := Nat.mod_lt (len + pageSize - 1) positive
  rw [ceilDiv]
  omega

theorem allocExtend_laid (positive : 0 < pageSize) {front owned pages : List Nat} {extendLen : Nat}
    {freePages freePages' indices : List Nat} (laid : Laid pageSize pages owned)
    (aligned : pageSize ∣ front.length)
    (ran : allocExtend pageSize (front ++ owned) extendLen freePages = some (indices, freePages')) :
    ∃ new, freePages = new ++ freePages' ∧ indices.length = extendLen ∧
      ((pages ++ new).Nodup → Laid pageSize (pages ++ new) (owned ++ indices)) := by
  have fits := laid.length_le
  have tight := laid.tight
  obtain ⟨q, isFront⟩ := aligned
  rw [Nat.mul_comm] at isFront
  have sum : (q + pages.length) * pageSize = q * pageSize + pages.length * pageSize :=
    Nat.add_mul ..
  -- `front` fills `q` pages, and the owned indices lie in `pages` behind them
  have before : ceilDiv (front ++ owned).length pageSize = q + pages.length := by
    rw [length_append, isFront]
    apply ceilDiv_eq positive <;> omega
  obtain ⟨enough, least⟩ := le_ceilDiv_mul positive ((front ++ owned).length + extendLen)
  generalize isAfter : ceilDiv ((front ++ owned).length + extendLen) pageSize =
    after at enough least
  rw [length_append, isFront] at enough least
  rw [allocExtend] at ran
  rw [isAfter, before] at ran
  split at ran
  · cases ran
  next available =>
  cases ran
  generalize isCount : after - (q + pages.length) = count at available ⊢
  have countPages : (count : Nat) * pageSize =
      after * pageSize - (q + pages.length) * pageSize := by
    rw [← isCount, Nat.sub_mul]
  have newLength : (freePages.take count).length = count := by
    rw [length_take]
    omega
  rw [show (front ++ owned).length = q * pageSize + owned.length by
    rw [length_append, isFront]]
  generalize isPart : min (q * pageSize + owned.length + extendLen)
    ((q + pages.length) * pageSize) -
    (q * pageSize + owned.length) = part
  -- the new indices go on behind the last owned one, if the last page has room
  have sameLast : (range part).map ((front ++ owned).getLast?.getD 0 + 1 + ·) =
      (range part).map (owned.getLast?.getD 0 + 1 + ·) := by
    cases owned with
    | nil =>
      have noPage : pages.length < 1 := by
        apply Nat.lt_of_mul_lt_mul_right (a := pageSize)
        rw [length_nil] at tight
        omega
      have noPart : part = 0 := by
        rw [length_nil, Nat.lt_one_iff.mp noPage, Nat.add_zero, Nat.add_zero] at isPart
        omega
      rw [noPart]
      rfl
    | cons x xs => rw [getLast?_append_of_ne_nil _ (cons_ne_nil x xs)]
  have first := laid.next (r := part) (by omega)
  rw [← sameLast] at first
  have length : ((range part).map ((front ++ owned).getLast?.getD 0 + 1 + ·) ++
      (blocks pageSize (freePages.take count)).take (extendLen - part)).length = extendLen := by
    rw [length_append, length_map, length_range, length_take, length_blocks, newLength]
    omega
  refine ⟨freePages.take count, (take_append_drop ..).symm, length,
    fun distinct => ⟨distinct, ?_, ?_⟩⟩
  · rw [blocks_append, ← append_assoc]
    by_cases full : part = pages.length * pageSize - owned.length
    · -- the last page is full, and the new ones follow
      have whole := first.eq_of_length (by
        rw [length_append, length_map, length_range, length_blocks]
        omega)
      rw [whole]
      exact (prefix_append_right_inj _).mpr <| take_prefix ..
    · rw [show extendLen - part = 0 by omega, take_zero, append_nil]
      exact first.trans (prefix_append ..)
  · rw [length_append, newLength, length_append, length, Nat.add_mul]
    omega

namespace Cache

variable {cfg : CacheConfig} {held : List NodeId} {c : Cache} {safe : Prop}
  {before front owned pages : List Nat}

/-- The next indices of a request, behind those that it owns. -/
theorem allocKv_laid (extendLen : Nat) (isBefore : before = front ++ owned)
    (laid : Laid cfg.pageSize pages owned) (aligned : cfg.pageSize ∣ front.length) :
    Calm safe (fun r => ∃ new, r.2 = { c with freePages := r.2.freePages } ∧
      c.freePages = new ++ r.2.freePages ∧ r.1.length = extendLen ∧
      ((pages ++ new).Nodup → Laid cfg.pageSize (pages ++ new) (owned ++ r.1)))
      (c.allocKv cfg before extendLen) := by
  rw [allocKv]
  split
  · next single =>
    split
    · exact False.elim
    · next available =>
      refine ⟨c.freePages.take extendLen, rfl, (take_append_drop ..).symm, ?_, ?_⟩
      · rw [length_take]
        omega
      intro distinct
      rw [single] at laid ⊢
      rw [laid.eq_blocks (Nat.one_dvd _), blocks_one]
      have whole : Laid 1 _ _ := .whole Nat.one_pos distinct
      rw [blocks_one] at whole
      exact whole
  · rw [isBefore]
    cases extended : allocExtend cfg.pageSize (front ++ owned) extendLen c.freePages with
    | none => exact False.elim
    | some allocated =>
      obtain ⟨new, free, length, goesOn⟩ := allocExtend_laid cfg.positive laid aligned extended
      exact ⟨new, rfl, free, length, goesOn⟩

theorem allocKv_turn (extendLen : Nat) (sound : c.Sound cfg held)
    (isBefore : before = front ++ owned) (laid : Laid cfg.pageSize pages owned)
    (aligned : cfg.pageSize ∣ front.length)
    (fresh : ∀ i, kvCount cfg c i + pages.count (i / cfg.pageSize) ≤ 1) :
    Calm safe (fun r => ∃ new, Turn cfg held held c r.2 [] new [] [] ∧ r.1.length = extendLen ∧
      Laid cfg.pageSize (pages ++ new) (owned ++ r.1)) (c.allocKv cfg before extendLen) := by
  refine (allocKv_laid extendLen isBefore laid aligned).mono ?_
  rintro ⟨indices, c'⟩ ⟨new, same, free, length, goesOn⟩
  have distinct : (pages ++ new).Nodup := by
    rw [nodup_iff_count_le_one]
    intro p
    have once := fresh (p * cfg.pageSize)
    rw [kvCount, Nat.mul_div_cancel _ cfg.positive, free, count_append] at once
    rw [count_append]
    omega
  refine ⟨new, turn_of_tree sound (by rw [same]) ?_ ?_, length, goesOn distinct⟩
  · intro p
    rw [free, count_append, count_nil, Nat.add_zero, Nat.add_comm]
  · intro i
    rw [same]

end Cache

/-! ### Requests -/

namespace Req

/-- The KV indices of a request that are not in the tree. -/
def kvOwned (req : Req) : List Nat :=
  req.table.drop req.cacheProtectedLen

def slotsOwned (req : Req) : List Nat :=
  req.mambaPoolIdx.toList ++ req.mambaPingPongTrackBuffer.getD []

def locks (req : Req) : List NodeId :=
  if req.phase = .waiting then [] else [req.lastNode]

def Follows (t : Tree) (req : Req) : Prop :=
  ∃ tokens values, tokens <+: req.allIds ∧ tokens.length = req.cacheProtectedLen ∧
    t.Reach req.extraKey rootNode tokens values req.lastNode

/-- A request in the queue owns nothing. -/
structure Waits (req : Req) : Prop where
  table : req.table = []
  mambaPoolIdx : req.mambaPoolIdx = none
  buffer : req.mambaPingPongTrackBuffer = none

/-- A request in the batch to be: it may own the slot for a copy. -/
structure Joins (t : Tree) (req : Req) : Prop where
  follows : req.Follows t
  table : req.table = []
  prefixLen : req.prefixIndices.length = req.cacheProtectedLen
  buffer : req.mambaPingPongTrackBuffer = none

structure Runs (cfg : ServerConfig) (t : Tree) (req : Req) (pages : List Nat) : Prop where
  follows : req.Follows t
  laid : Laid cfg.pageSize pages req.kvOwned
  covered : req.cacheProtectedLen ≤ req.fillIds.length
  filled : req.fillIds.length ≤ req.table.length
  fill : req.fillIds <+: req.allIds
  committed : req.kvCommittedLen = req.table.length
  known : req.table.length ≤ req.allIds.length
  prefixes : req.prefixIndices.length ≤ req.table.length
  chunk : req.prefixIndices.length = req.table.length →
    req.prefixIndices.drop req.cacheProtectedLen = req.kvOwned
  pool : req.mambaPoolIdx.isSome = true
  buffer : req.mambaPingPongTrackBuffer =
    if cfg.enableMambaExtraBuffer then some req.trackBufferMapping else none
  size : cfg.enableMambaExtraBuffer = true →
    req.trackBufferMapping.length = cfg.mambaPingPongTrackBufferSize

/-- A request and the pages of its own indices. -/
def Fits (cfg : ServerConfig) (t : Tree) (req : Req) (pages : List Nat) : Prop :=
  match req.phase with
  | .waiting => req.Waits ∧ pages = []
  | .admitted => req.Joins t ∧ pages = []
  | .running => req.Runs cfg t pages

variable {cfg : ServerConfig} {t t' : Tree} {req : Req} {pages : List Nat}

theorem Follows.mono (follows : req.Follows t)
    (reach : ∀ extraKey tokens values, t.Reach extraKey rootNode tokens values req.lastNode →
      t'.Reach extraKey rootNode tokens values req.lastNode) : req.Follows t' := by
  obtain ⟨tokens, values, within, length, path⟩ := follows
  exact ⟨tokens, values, within, length, reach _ _ _ path⟩

theorem Follows.aligned (follows : req.Follows t) (aligned : t.PageAligned pageSize) :
    pageSize ∣ req.cacheProtectedLen := by
  obtain ⟨tokens, values, -, length, path⟩ := follows
  rw [← length]
  exact path.dvd_length aligned

section

variable (fits : req.Fits cfg t pages)

include fits

theorem Fits.mono (reach : ∀ n ∈ req.locks, ∀ extraKey tokens values,
      t.Reach extraKey rootNode tokens values n → t'.Reach extraKey rootNode tokens values n) :
    req.Fits cfg t' pages := by
  rw [Fits] at fits ⊢
  rw [locks] at reach
  cases phase : req.phase with
  | waiting =>
    rw [phase] at fits
    exact fits
  | admitted =>
    rw [phase] at fits reach
    exact ⟨{ fits.1 with follows := fits.1.follows.mono (reach _ mem_cons_self) }, fits.2⟩
  | running =>
    rw [phase] at fits reach
    exact { fits with follows := fits.follows.mono (reach _ mem_cons_self) }

theorem Fits.runs (phase : req.phase = .running) :
    req.Runs cfg t pages := by
  rw [Fits, phase] at fits
  exact fits

theorem Fits.joins (phase : req.phase = .admitted) :
    req.Joins t := by
  rw [Fits, phase] at fits
  exact fits.1

theorem Fits.laid : Laid cfg.pageSize pages req.kvOwned := by
  rw [Fits] at fits
  rw [kvOwned]
  cases phase : req.phase with
  | waiting =>
    rw [phase] at fits
    rw [fits.1.table, fits.2, drop_nil]
    exact .nil cfg.positive
  | admitted =>
    rw [phase] at fits
    rw [fits.1.table, fits.2, drop_nil]
    exact .nil cfg.positive
  | running =>
    rw [phase] at fits
    exact fits.laid

end

end Req

/-- A function has turned the request `req` with its pages into `req'`, while the nodes of the
    other requests are locked. -/
structure Handled (cfg : ServerConfig) (others : List NodeId) (c c' : Cache) (req req' : Req)
    (pages pages' : List Nat) : Prop where
  turn : Cache.Turn cfg.toCacheConfig others (req'.locks ++ others) c c' pages pages'
    req.slotsOwned req'.slotsOwned
  fits : req'.Fits cfg c'.tree pages'

section Functions

variable {cfg : ServerConfig} {others : List NodeId} {c c' : Cache} {req req' : Req}
  {pages : List Nat} {safe : Prop}

theorem Req.Waits.slotsOwned (waits : req.Waits) : req.slotsOwned = [] := by
  rw [Req.slotsOwned, waits.mambaPoolIdx, waits.buffer]
  rfl

theorem Req.locks_of_scheduled (scheduled : req.phase ≠ .waiting) : req.locks = [req.lastNode] :=
  if_neg scheduled

theorem check_bind_ok {α : Type} {condition : Bool} {failure : Failure}
    {f : Unit → Except Failure α}
    {a : α} (ran : (check condition failure >>= f) = .ok a) : condition = true ∧ f () = .ok a := by
  cases holds : condition with
  | true =>
    rw [holds] at ran
    exact ⟨rfl, ran⟩
  | false =>
    rw [holds] at ran
    cases ran

theorem handled_here {req' : Req} (sound : c.Sound cfg.toCacheConfig (req.locks ++ others))
    (sameLocks : req'.locks = req.locks) (sameSlots : req'.slotsOwned = req.slotsOwned)
    (fits : req'.Fits cfg c.tree pages) : Handled cfg others c c req req' pages pages := by
  rw [← sameLocks] at sound
  refine ⟨(Cache.Turn.refl sound).recount (fun _ => Nat.add_comm ..) fun _ => ?_, fits⟩
  rw [sameSlots]
  exact Nat.add_comm ..

/-! ### From the queue into a batch -/

variable (maxPrefixLen : Nat)

theorem initNextRoundInput_turn (sound : c.Sound cfg.toCacheConfig others) (waits : req.Waits) :
    Calm safe (fun r => Cache.Turn cfg.toCacheConfig others others c r.2 [] [] [] r.1.slotsOwned ∧
      r.1.Joins r.2.tree ∧ r.2.tree.Lockable r.1.lastNode ∧ r.1.phase = req.phase ∧
      r.1.mambaLastTrackSeqlen = req.mambaLastTrackSeqlen)
      (initNextRoundInput cfg req maxPrefixLen c) := by
  refine (Cache.matchPrefix_turn sound _ _).bind fun ⟨result, c₁⟩ _ matched => ?_
  obtain ⟨tokens, taken, answer⟩ := matched
  have slot := answer.slot
  rw [waits.mambaPoolIdx] at slot
  have length := answer.path.length_eq answer.turn.sound.inv.shape
  refine ⟨?_, ⟨⟨tokens, result.deviceIndices, ?_, length.symm, answer.path⟩, waits.table, rfl,
    waits.buffer⟩, answer.lockable, rfl, rfl⟩
  · rw [Req.slotsOwned, waits.buffer, slot]
    exact (append_nil taken).symm ▸ answer.turn
  · exact answer.within.trans <| take_prefix ..

theorem addOneReq_handled (sound : c.Sound cfg.toCacheConfig others) (waits : req.Waits) :
    Calm safe (fun r => Handled cfg others c r.2 req r.1 [] [] ∧ r.1.phase = .admitted ∧
      r.1.mambaLastTrackSeqlen = req.mambaLastTrackSeqlen) (addOneReq cfg req maxPrefixLen c) := by
  refine (initNextRoundInput_turn maxPrefixLen sound waits).bind fun ⟨joined, c₁⟩ _ inited => ?_
  obtain ⟨turn, joins, lockable, -, sameLast⟩ := inited
  refine (Cache.incLockRef_turn (joined.lastNode :: others) turn.sound lockable).bind
    fun c₂ _ lock => ⟨⟨?_, ?_⟩, rfl, sameLast⟩
  · rw [waits.slotsOwned]
    have both := turn.trans (lock.mono fun _ member => mem_cons_of_mem _ member)
    simp only [append_nil] at both
    exact both
  · refine ⟨⟨?_, joins.table, joins.prefixLen, joins.buffer⟩, rfl⟩
    exact joins.follows.mono (lock.reach _ mem_cons_self)

theorem revertMatch_handled (sound : c.Sound cfg.toCacheConfig others)
    (phase : req.phase = .waiting) (waits : req.Waits) :
    Calm safe (fun r => Handled cfg others c r.2 req r.1 [] [] ∧ r.1.phase = .waiting ∧
      r.1.mambaLastTrackSeqlen = req.mambaLastTrackSeqlen)
      (revertMatch cfg req maxPrefixLen c) := by
  refine (initNextRoundInput_turn maxPrefixLen sound waits).bind fun ⟨joined, c₁⟩ _ inited => ?_
  obtain ⟨turn, joins, -, samePhase, sameLast⟩ := inited
  rw [phase] at samePhase
  rw [Req.slotsOwned, joins.buffer] at turn
  dsimp only at *
  cases taken : joined.mambaPoolIdx with
  | some slot =>
    rw [taken] at turn
    refine ⟨⟨?_, ?_⟩, samePhase, sameLast⟩
    · rw [waits.slotsOwned, Req.locks, if_pos samePhase, joins.buffer]
      exact (turn.trans (Cache.freeMamba_turn turn.sound slot)).recount (fun _ => rfl)
        (fun _ => Nat.add_comm ..)
    · rw [samePhase]
      exact ⟨⟨joins.table, rfl, joins.buffer⟩, rfl⟩
  | none =>
    rw [taken] at turn
    refine ⟨⟨?_, ?_⟩, samePhase, sameLast⟩
    · rw [waits.slotsOwned, Req.locks, if_pos samePhase, Req.slotsOwned, joins.buffer, taken]
      exact turn
    · rw [Req.Fits, samePhase]
      exact ⟨⟨joins.table, taken, joins.buffer⟩, rfl⟩

/-! ### Prefill and decode -/

theorem allocMambaIdx_turn {held : List NodeId} (sound : c.Sound cfg.toCacheConfig held) :
    Calm safe (fun r =>
      Cache.Turn cfg.toCacheConfig held held c r.2 [] [] req.slotsOwned r.1.slotsOwned ∧
        ∃ slot, r.1 = { req with mambaPoolIdx := some slot }) (allocMambaIdx req c) := by
  rw [allocMambaIdx]
  cases has : req.mambaPoolIdx with
  | some slot =>
    refine ⟨(Cache.Turn.refl sound).recount (fun _ => rfl) (fun _ => Nat.add_comm ..), slot, ?_⟩
    rw [← has]
  | none =>
    cases allocated : c.allocMamba with
    | none => exact False.elim
    | some taken =>
      refine ⟨(Cache.allocMamba_turn sound allocated).recount (fun _ => rfl) ?_, taken.1, rfl⟩
      intro i
      rw [Req.slotsOwned, Req.slotsOwned, has, count_append, count_append]
      simp only [Option.toList_some, Option.toList_none]
      omega

theorem allocReqSlots_turn {held : List NodeId} (sound : c.Sound cfg.toCacheConfig held)
    (buffered : ∀ buffer, req.mambaPingPongTrackBuffer = some buffer →
      cfg.enableMambaExtraBuffer = true ∧ buffer.length = cfg.mambaPingPongTrackBufferSize) :
    Calm safe (fun r =>
      Cache.Turn cfg.toCacheConfig held held c r.2 [] [] req.slotsOwned r.1.slotsOwned ∧
      ∃ slot mapping next, r.1 = { req with
          mambaPoolIdx := some slot
          mambaPingPongTrackBuffer :=
            if cfg.enableMambaExtraBuffer then some mapping else none
          trackBufferMapping := mapping
          mambaNextTrackIdx := next } ∧
        (cfg.enableMambaExtraBuffer = true →
          mapping.length = cfg.mambaPingPongTrackBufferSize)) (allocReqSlots cfg req c) := by
  refine (allocMambaIdx_turn sound).bind fun ⟨pooled, c₁⟩ _ first => ?_
  obtain ⟨turn, slot, isPooled⟩ := first
  dsimp only at turn isPooled ⊢
  rw [allocTrackBuffer]
  split
  · next extra =>
    cases has : req.mambaPingPongTrackBuffer with
    | some buffer =>
      rw [isPooled, has]
      -- a request that comes back has its buffer still
      refine ⟨turn.recount (fun _ => rfl) fun i => ?_, slot, buffer, req.mambaNextTrackIdx, rfl,
        fun _ => (buffered buffer has).2⟩
      simp only [isPooled, Req.slotsOwned, has]
    | none =>
      rw [isPooled, has]
      dsimp only
      split
      · exact False.elim
      · next enough =>
        have free := (take_append_drop cfg.mambaPingPongTrackBufferSize c₁.freeSlots).symm
        refine ⟨(turn.trans (Cache.takeSlots_turn turn.sound free)).recount (fun _ => rfl) fun i =>
          ?_, slot, c₁.freeSlots.take cfg.mambaPingPongTrackBufferSize, 0, rfl, fun _ => ?_⟩
        · simp only [isPooled, Req.slotsOwned, has, Option.getD_none, Option.getD_some, append_nil]
        · rw [length_take]
          exact Nat.min_eq_left (Nat.le_of_not_lt enough)
  · next plain =>
    refine ⟨turn, slot, req.trackBufferMapping, req.mambaNextTrackIdx, ?_,
      fun extra => absurd extra plain⟩
    rw [isPooled]
    cases has : req.mambaPingPongTrackBuffer with
    | some buffer => exact absurd (buffered buffer has).1 plain
    | none => rfl

/-- A request whose next chunk can be prefilled. -/
structure Req.Ready (cfg : ServerConfig) (t : Tree) (req : Req) (pages : List Nat) : Prop where
  scheduled : req.phase ≠ .waiting
  follows : req.Follows t
  laid : Laid cfg.pageSize pages (req.prefixIndices.drop req.cacheProtectedLen)
  covered : req.cacheProtectedLen ≤ req.prefixIndices.length
  buffered : ∀ buffer, req.mambaPingPongTrackBuffer = some buffer →
    cfg.enableMambaExtraBuffer = true ∧ buffer.length = cfg.mambaPingPongTrackBufferSize

theorem Req.Runs.protected_le {t : Tree} (runs : req.Runs cfg t pages) :
    req.cacheProtectedLen ≤ req.table.length :=
  runs.covered.trans runs.filled

theorem Req.Fits.ready {t : Tree} (fits : req.Fits cfg t pages) (extendable : req.Extendable) :
    req.Ready cfg t pages := by
  rw [Req.Fits] at fits
  rcases extendable with phase | ⟨phase, whole⟩
  · rw [phase] at fits
    obtain ⟨joins, rfl⟩ := fits
    refine ⟨by rw [phase]; nofun, joins.follows, ?_, joins.prefixLen.ge, fun buffer has => ?_⟩
    · rw [drop_of_length_le joins.prefixLen.le]
      exact .nil cfg.positive
    · rw [joins.buffer] at has
      cases has
  rw [phase] at fits
  have runs : req.Runs cfg t pages := fits
  refine ⟨by rw [phase]; nofun, runs.follows, ?_, whole ▸ runs.protected_le, fun buffer has => ?_⟩
  · rw [runs.chunk whole]
    exact runs.laid
  have isBuffer := runs.buffer
  rw [has] at isBuffer
  split at isBuffer
  · next extra =>
    cases isBuffer
    exact ⟨extra, runs.size extra⟩
  · cases isBuffer

structure Req.Extends (req : Req) (extendInputLen : Nat) (req' : Req) : Prop where
  extendable : req.Extendable
  phase : req'.phase = .running
  allIds : req'.allIds = req.allIds
  prefixIndices : req'.prefixIndices = req.prefixIndices
  protectedLen : req'.cacheProtectedLen = req.cacheProtectedLen
  last : req'.mambaLastTrackSeqlen = req.mambaLastTrackSeqlen
  filled : req'.fillIds.length = req.prefixIndices.length + extendInputLen
  committed : req'.kvCommittedLen = req.prefixIndices.length + extendInputLen

theorem prepareForExtend_handled (extendInputLen : Nat)
    (sound : c.Sound cfg.toCacheConfig (req.locks ++ others)) (fits : req.Fits cfg c.tree pages)
    (fresh : ∀ i, c.kvCount cfg.toCacheConfig i + pages.count (i / cfg.pageSize) ≤ 1) :
    Calm safe (fun r => (∃ pages', Handled cfg others c r.2 req r.1 pages pages') ∧
      req.Extends extendInputLen r.1) (prepareForExtend cfg req extendInputLen c) := by
  refine (calm_check (by exact False.elim)).bind fun _ _ allowed => ?_
  obtain ⟨extendable, enough⟩ := of_decide_eq_true allowed
  have ready := fits.ready extendable
  rw [Req.locks_of_scheduled ready.scheduled] at sound
  refine (allocReqSlots_turn sound ready.buffered).bind fun ⟨req₁, c₁⟩ _ slots => ?_
  obtain ⟨first, slot, mapping, next, isReq, size⟩ := slots
  dsimp only at first isReq ⊢
  subst isReq
  -- the indices that the tree has, and then those of the request
  have parts := take_append_drop req.cacheProtectedLen req.prefixIndices
  have front : (req.prefixIndices.take req.cacheProtectedLen).length = req.cacheProtectedLen := by
    rw [length_take, Nat.min_eq_left ready.covered]
  have aligned := ready.follows.aligned (sound.paged.aligned sound.inv.shape)
  have fresh₁ : ∀ i, c₁.kvCount cfg.toCacheConfig i + pages.count (i / cfg.pageSize) ≤ 1 := by
    intro i
    have same := first.kv i
    have once := fresh i
    omega
  refine (Cache.allocKv_turn extendInputLen first.sound parts.symm ready.laid (front.symm ▸ aligned)
    fresh₁).bind fun ⟨out, c₂⟩ _ allocated => ?_
  obtain ⟨new, second, length, laid⟩ := allocated
  have turn := first.trans second
  simp only [nil_append, append_nil] at turn
  have seqLen : (req.allIds.take (req.prefixIndices.length + extendInputLen)).length =
      req.prefixIndices.length + extendInputLen := length_take_of_le enough
  have tableLength : (req.prefixIndices ++ out).length =
      req.prefixIndices.length + extendInputLen := by
    rw [length_append, length]
  refine ⟨⟨pages ++ new, ?_, ?_⟩, extendable, rfl, rfl, rfl, rfl, rfl, seqLen, rfl⟩
  · refine (turn.mono fun _ member => mem_cons_of_mem _ member).recount (fun p => ?_) fun _ => rfl
    rw [count_append, count_nil]
    omega
  -- the row is the prefix with the new indices behind it
  exact {
    follows := ready.follows.mono (turn.reach _ mem_cons_self)
    laid := by
      rw [Req.kvOwned, drop_append_of_le_length ready.covered]
      exact laid
    covered := ready.covered.trans ((Nat.le_add_right ..).trans_eq seqLen.symm)
    filled := (seqLen.trans tableLength.symm).le
    fill := take_prefix ..
    committed := tableLength.symm
    known := tableLength.le.trans enough
    prefixes := (Nat.le_add_right ..).trans_eq tableLength.symm
    chunk := by
      intro whole
      have noNew : out = [] := by
        apply eq_nil_of_length_eq_zero
        rw [length]
        exact Nat.left_eq_add.mp (whole.trans tableLength)
      rw [noNew]
      exact congrArg _ (append_nil _).symm
    pool := rfl
    buffer := rfl
    size := size }

theorem prepareForDecode_handled (sound : c.Sound cfg.toCacheConfig (req.locks ++ others))
    (fits : req.Fits cfg c.tree pages)
    (fresh : ∀ i, c.kvCount cfg.toCacheConfig i + pages.count (i / cfg.pageSize) ≤ 1) :
    Calm safe (fun r => (∃ pages', Handled cfg others c r.2 req r.1 pages pages') ∧
      req.phase = .running ∧ ∃ table, r.1 = { req with
        table := table, kvCommittedLen := req.kvCommittedLen + 1 })
      (prepareForDecode cfg req c) := by
  refine (calm_check (by exact False.elim)).bind fun _ _ allowed => ?_
  obtain ⟨phase, more⟩ := of_decide_eq_true allowed
  have runs := fits.runs phase
  have isLocked : req.locks = [req.lastNode] := Req.locks_of_scheduled (by rw [phase]; nofun)
  rw [isLocked] at sound
  have parts := take_append_drop req.cacheProtectedLen req.table
  have front : (req.table.take req.cacheProtectedLen).length = req.cacheProtectedLen := by
    rw [length_take, Nat.min_eq_left runs.protected_le]
  have aligned := runs.follows.aligned (sound.paged.aligned sound.inv.shape)
  -- one index more, behind those that the request owns
  refine (Cache.allocKv_turn 1 sound parts.symm runs.laid (front.symm ▸ aligned) fresh).bind
    fun ⟨out, c₁⟩ _ allocated => ?_
  obtain ⟨new, turn, length, laid⟩ := allocated
  have tableLength : (req.table ++ out).length = req.table.length + 1 := by
    rw [length_append, length]
  refine ⟨⟨pages ++ new, ?_, ?_⟩, phase, _, rfl⟩
  · rw [Req.locks_of_scheduled (by rw [phase]; nofun)]
    refine (turn.mono fun _ member => mem_cons_of_mem _ member).recount (fun p => ?_) fun i => ?_
    · rw [count_append, count_nil]
      omega
    · exact Nat.add_comm ..
  rw [phase]
  exact { runs with
    follows := runs.follows.mono (turn.reach _ mem_cons_self)
    laid := by
      rw [Req.kvOwned, drop_append_of_le_length runs.protected_le]
      exact laid
    filled := (runs.filled.trans (Nat.le_succ _)).trans_eq tableLength.symm
    committed := (congrArg (· + 1) runs.committed).trans tableLength.symm
    known := (tableLength.trans (congrArg (· + 1) runs.committed.symm)).le.trans more
    prefixes := (runs.prefixes.trans (Nat.le_succ _)).trans_eq tableLength.symm
    chunk := by
      intro whole
      have fewer := runs.prefixes
      have longer : req.prefixIndices.length = req.table.length + 1 := whole.trans tableLength
      omega }

theorem trackState_handled (seqlen : Nat)
    (sound : c.Sound cfg.toCacheConfig (req.locks ++ others)) (fits : req.Fits cfg c.tree pages) :
    Calm safe (fun req' => Handled cfg others c c req req' pages pages ∧
      ∃ next last, req' = { req with mambaNextTrackIdx := next, mambaLastTrackSeqlen := last } ∧
        (last = some seqlen ∨ last = req.mambaLastTrackSeqlen)) (trackState cfg req seqlen) := by
  refine (calm_check (by exact False.elim)).bind fun _ _ allowed => ?_
  have phase := of_decide_eq_true allowed
  have same : ∀ next last, Handled cfg others c c req
      { req with mambaNextTrackIdx := next, mambaLastTrackSeqlen := last } pages pages := by
    intro next last
    refine handled_here sound rfl rfl ?_
    rw [phase]
    exact { fits.runs phase with }
  split
  · exact ⟨same _ _, _, _, rfl, .inl rfl⟩
  · exact ⟨same _ _, _, _, rfl, .inr rfl⟩

theorem appendOutput_handled (token : Nat) (reasoning : Bool)
    (sound : c.Sound cfg.toCacheConfig (req.locks ++ others)) (fits : req.Fits cfg c.tree pages) :
    Calm safe (fun req' => Handled cfg others c c req req' pages pages ∧
      ∃ reasoningTokens, req' = { req with
        outputIds := req.outputIds ++ [token], reasoningTokens := reasoningTokens })
      (appendOutput req token reasoning) := by
  refine (calm_check (by exact False.elim)).bind fun _ _ allowed => ⟨?_, _, rfl⟩
  have phase := of_decide_eq_true allowed
  have runs := fits.runs phase
  have grows : req.allIds <+: req.originInputIds ++ (req.outputIds ++ [token]) := by
    rw [← append_assoc]
    exact prefix_append ..
  refine handled_here sound rfl rfl ?_
  rw [phase]
  obtain ⟨tokens, values, within, length, path⟩ := runs.follows
  exact { runs with
    follows := ⟨tokens, values, within.trans grows, length, path⟩
    fill := runs.fill.trans grows
    known := runs.known.trans grows.length_le }

end Functions

end Engram.Radix
