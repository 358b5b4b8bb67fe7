import Engram.Radix.Handling

/-!
# What the cache takes over from a request

`cache_unfinished_req` and `release_kv_cache` as turns of the cache. The pages of a request go
three ways: to the tree, which may have them already, to the free list with the rest of the row,
and, for an unfinished request, back to it (`cacheUnfinishedReq_handled`, `releaseKvCache_turn`).
The assertions about the cached length hold when it ends with a page, inside the row and not
before the protected part.
-/

namespace Engram.Radix

open Lib Lib.Transition List

section Functions

variable {cfg : ServerConfig} {others held : List NodeId} {c c' : Cache} {req req' : Req}
  {pages : List Nat} {safe : Prop} {cacheLen : Nat} {t : Tree} {keep : Option Nat} {isInsert : Bool}

/-! ### Parts of a row -/

theorem Req.Runs.offered (runs : req.Runs cfg t pages) (inside : cacheLen ≤ req.table.length)
    (aligned : cfg.pageSize ∣ cacheLen - req.cacheProtectedLen) :
    (req.table.take cacheLen).drop req.cacheProtectedLen =
      blocks cfg.pageSize (pages.take ((cacheLen - req.cacheProtectedLen) / cfg.pageSize)) := by
  rw [drop_take, ← Req.kvOwned, ← runs.laid.take, Nat.div_mul_cancel aligned]
  rw [Nat.div_mul_cancel aligned, Req.kvOwned, length_drop]
  omega

theorem Req.Runs.offers (runs : req.Runs cfg c.tree pages) (sound : c.Sound cfg.toCacheConfig held)
    {tokenIds : List Nat} (inside : cacheLen ≤ req.table.length) (aligned : cfg.pageSize ∣ cacheLen)
    (isKey : tokenIds <+: req.allIds) (length : tokenIds.length = cacheLen) :
    c.Offers cfg.toCacheConfig ⟨tokenIds, req.extraKey⟩ (req.table.take cacheLen)
      req.cacheProtectedLen (pages.take ((cacheLen - req.cacheProtectedLen) / cfg.pageSize)) := by
  have prevAligned := runs.follows.aligned (sound.paged.aligned sound.inv.shape)
  obtain ⟨tokens, values, within, isLength, path⟩ := runs.follows
  refine ⟨?_, ?_, prevAligned, ?_, runs.laid.distinct.sublist (take_sublist ..),
    tokens, values, req.lastNode, path, isLength, prefix_or_prefix_of_prefix within isKey⟩
  · rw [length_take, Nat.min_eq_left inside]
    exact length.symm
  · rw [RadixKey.Aligned, RadixKey.length, length]
    exact aligned
  · exact runs.offered inside (Nat.dvd_sub aligned prevAligned)

/-! ### Unfinished requests -/

theorem count_set_add {slots : List Nat} {k old : Nat} (has : slots[k]? = some old) (new i : Nat) :
    (slots.set k new).count i + [old].count i = slots.count i + [new].count i := by
  obtain ⟨inside, isOld⟩ := List.getElem?_eq_some_iff.mp has
  have there : slots.count i - (if old == i then 1 else 0) + (if old == i then 1 else 0) =
      slots.count i := by
    apply Nat.sub_add_cancel
    split
    · next same =>
      rw [beq_iff_eq] at same
      rw [← same, Nat.one_le_iff_ne_zero, ← Nat.pos_iff_ne_zero, count_pos_iff, ← isOld]
      exact getElem_mem inside
    · exact Nat.zero_le _
  rw [count_set inside, isOld, count_singleton, count_singleton]
  omega

theorem donateUnfinished_turn (sound : c.Sound cfg.toCacheConfig held)
    (runs : req.Runs cfg t pages) :
    Calm safe (fun r =>
      Cache.Turn cfg.toCacheConfig held held c r.2.2 [] [] req.slotsOwned
        (r.2.1.slotsOwned ++ [r.1]) ∧
      ∃ mapping, r.2.1 = { req with
          mambaPingPongTrackBuffer :=
            if cfg.enableMambaExtraBuffer then some mapping else none
          trackBufferMapping := mapping } ∧
        (cfg.enableMambaExtraBuffer = true →
          mapping.length = cfg.mambaPingPongTrackBufferSize)) (donateUnfinished cfg req c) := by
  have isBuffer := runs.buffer
  rw [donateUnfinished]
  split
  · next extra =>
    rw [if_pos extra] at isBuffer
    rw [isBuffer]
    dsimp only
    generalize getMambaPingPongOtherIdx cfg req.mambaNextTrackIdx = keep
    cases has : req.trackBufferMapping[keep]? with
    | none => exact False.elim
    | some old =>
      -- the slot of the tracked state is donated, and the new one takes its place
      refine (Cache.allocMambaSlot_turn sound).bind fun ⟨newSlot, c₁⟩ _ turn =>
        ⟨turn.recount (fun _ => rfl) fun i => ?_, req.trackBufferMapping.set keep newSlot, rfl,
          fun _ => length_set.trans (runs.size extra)⟩
      have swapped := count_set_add has newSlot i
      simp only [Req.slotsOwned, isBuffer, Option.getD_some, count_append, count_nil]
      omega
  · next plain =>
    rw [if_neg plain] at isBuffer
    refine (Cache.allocMambaSlot_turn sound).bind fun ⟨newSlot, c₁⟩ _ turn =>
      ⟨turn.recount (fun _ => rfl) fun i => ?_, req.trackBufferMapping, ?_,
        fun extra => absurd extra plain⟩
    · simp only [count_append, count_nil]
      omega
    · rw [← isBuffer]

theorem writeRow_drop {row indices : List Nat} {start : Nat} (covered : start ≤ row.length)
    (inside : indices.length ≤ row.length) (later : start ≤ indices.length) :
    (writeRow row start (indices.drop start)).length = row.length ∧
      (writeRow row start (indices.drop start)).drop indices.length = row.drop indices.length := by
  have front : (row.take start ++ indices.drop start).length = indices.length := by
    rw [length_append, length_take, length_drop]
    omega
  have back : start + (indices.drop start).length = indices.length := by
    rw [length_drop]
    omega
  rw [writeRow, back]
  constructor
  · rw [length_append, length_drop]
    omega
  · exact drop_left' front

theorem le_of_dvd_of_lt {pageSize m n : Nat} (first : pageSize ∣ m) (second : pageSize ∣ n)
    (near : m < n + pageSize) : m ≤ n := by
  have apart := Nat.dvd_sub first second
  by_contra less
  have page := Nat.le_of_dvd (by omega) apart
  omega

namespace Cache.Inserted

variable {cfg : CacheConfig} {key : RadixKey} {offered : List Nat} {donated : Nat}
  {result : InsertResult}

theorem turn_free (inserted : Inserted cfg held c key donated offered result c') :
    Turn cfg held held c (if result.mambaExist then c'.freeMamba donated else c') offered []
      [donated] [] := by
  have first := inserted.turn
  cases exist : result.mambaExist with
  | true =>
    rw [exist] at first
    have freed := first.trans (freeMamba_turn first.sound donated)
    simp only [append_nil] at freed
    exact freed
  | false =>
    rw [exist] at first
    exact first

/-- A key is inserted and matched again: the match is the whole key, and the state of its node is
    the given one where it is new. -/
theorem matched {matchResult : MatchResult} {c₁ : Cache} {tokens taken : List Nat}
    (inserted : Inserted cfg held c key donated offered result c')
    (answer : Matched cfg held (if result.mambaExist then c'.freeMamba donated else c') key none
      matchResult c₁ tokens taken) :
    Turn cfg held held c c₁ offered [] [donated] [] ∧
      c₁.tree.Reach key.extraKey rootNode key.tokenIds matchResult.deviceIndices
        matchResult.lastDeviceNode ∧
      (result.mambaExist ||
        (c₁.tree.nodes matchResult.lastDeviceNode).mambaValue == some donated) = true := by
  have sameTree : (if result.mambaExist then c'.freeMamba donated else c').tree = c'.tree := by
    split <;> rfl
  have second := inserted.turn_free
  obtain ⟨noSlot, reshaped⟩ := answer.asked rfl
  subst noSlot
  -- the inserted key has a state, so no shorter prefix is matched
  have whole : tokens = key.tokenIds := by
    apply answer.within.eq_of_length
    apply Nat.le_antisymm answer.within.length_le
    by_cases empty : key.length = 0
    · exact (Nat.le_of_eq empty).trans (Nat.zero_le _)
    · apply answer.longest _ prefix_rfl
      rw [sameTree]
      exact inserted.hasState empty
  subst whole
  have both := second.trans answer.turn
  simp only [append_nil] at both
  refine ⟨both, answer.path, ?_⟩
  cases exist : result.mambaExist with
  | true => rfl
  | false =>
    -- the match only reshapes the tree, and the node of the key is the one with the new state
    obtain ⟨values, n, reach, state⟩ := inserted.isNew exist
    rw [← sameTree] at reach state
    have after := both.sound
    have isNode : matchResult.lastDeviceNode = n :=
      (reshaped.reach_of cfg.positive second.sound.inv reach).node_unique after.inv.shape
        (after.paged.aligned after.inv.shape) answer.path
    rw [isNode, (reshaped.mambaValue cfg.positive second.sound.inv (reach.has (.inl rfl))).2, state]
    exact beq_self_eq_true _

end Cache.Inserted

/-- The length that a request caches: whole pages, behind the protected ones and within the
    tokens that have been prefilled. -/
structure Req.Caches (cfg : ServerConfig) (req : Req) (cacheLen : Nat) : Prop where
  aligned : cfg.pageSize ∣ cacheLen
  later : req.cacheProtectedLen ≤ cacheLen
  inside : cacheLen ≤ req.fillIds.length

/-- What is the same before and after a request has been cached, and what is not: the next chunk
    starts where the one before has ended. -/
structure Req.CachedTo (req req' : Req) : Prop where
  phase : req'.phase = .running
  allIds : req'.allIds = req.allIds
  fillIds : req'.fillIds = req.fillIds
  committed : req'.kvCommittedLen = req.kvCommittedLen
  prefixLen : req'.prefixIndices.length = req.fillIds.length

theorem insertUnfinished_handled (enabled : cfg.disable = false)
    (sound : c.Sound cfg.toCacheConfig (req.lastNode :: others)) (phase : req.phase = .running)
    (runs : req.Runs cfg c.tree pages) :
    Calm (req.Caches cfg cacheLen)
      (fun r => (∃ pages', Handled cfg others c r.2 req r.1 pages pages') ∧ req.CachedTo r.1 ∧
        r.1.mambaLastTrackSeqlen = none) (insertUnfinished cfg req cacheLen c) := by
  have prevAligned := runs.follows.aligned (sound.paged.aligned sound.inv.shape)
  have positive : 0 < cfg.pageSize := cfg.positive
  have kvLength : ((req.table.take req.fillIds.length).take cacheLen).length =
      min cacheLen req.fillIds.length := by
    have filled := runs.filled
    rw [take_take, length_take]
    omega
  rw [insertUnfinished]
  dsimp only
  rw [kvLength]
  generalize isLen : min cacheLen req.fillIds.length = len
  have cached : req.Caches cfg cacheLen → len = cacheLen := fun caches =>
    isLen.symm.trans (Nat.min_eq_left caches.inside)
  -- the tokens that are cached end with a page
  refine (calm_check fun _ caches => ?_).bind fun _ _ isAligned => ?_
  · rw [cached caches, Nat.div_mul_cancel caches.aligned]
    exact beq_self_eq_true _
  rw [beq_iff_eq] at isAligned
  have inFill : len ≤ req.fillIds.length := by omega
  have inTable : len ≤ req.table.length := inFill.trans runs.filled
  have aligned : cfg.pageSize ∣ len := ⟨_, isAligned.symm.trans (Nat.mul_comm ..)⟩
  have isValue : ((req.table.take req.fillIds.length).take cacheLen).take len =
      req.table.take len := by
    rw [take_take, take_take]
    congr 1
    omega
  rw [isAligned, isValue]
  have keyLength : (req.fillIds.take len).length = len := length_take_of_le inFill
  have isKey : req.fillIds.take len <+: req.allIds :=
    .trans ⟨_, take_append_drop ..⟩ runs.fill
  -- the turns: a state for the tree, the pages, and the lock
  refine (donateUnfinished_turn sound runs).bind fun ⟨donated, req₁, c₁⟩ _ gave => ?_
  obtain ⟨first, mapping, isReq, size⟩ := gave
  dsimp only at first isReq ⊢
  subst isReq
  have runs₁ : req.Runs cfg c₁.tree pages :=
    { runs with follows := runs.follows.mono (first.reach _ mem_cons_self) }
  refine (Cache.insert_turn donated first.sound enabled
    (runs₁.offers first.sound inTable aligned isKey keyLength)).bind
      fun ⟨result, c₂⟩ _ inserted => ?_
  refine (Cache.matchPrefix_turn inserted.turn_free.sound _ _).bind
    fun ⟨matchResult, c₄⟩ _ ⟨tokens, taken, answer⟩ => ?_
  obtain ⟨second, path, donatedThere⟩ := inserted.matched answer
  have newLength : matchResult.deviceIndices.length = len :=
    (path.length_eq second.sound.inv.shape).trans keyLength
  -- the three assertions behind the match
  refine (calm_check fun _ _ => donatedThere).bind fun _ _ _ => ?_
  refine (calm_check fun _ caches => decide_eq_true ?_).bind fun _ _ near => ?_
  · have later := caches.later
    have whole := cached caches
    dsimp only
    omega
  refine (calm_check fun _ _ => decide_eq_true ?_).bind fun _ _ _ => ?_
  · exact (inserted.prefixLen.trans keyLength.le).trans_eq newLength.symm
  refine (Cache.decLockRef_turn (matchResult.lastDeviceNode :: others) second.sound
    mem_cons_self).bind fun c₅ _ ⟨unlock, still⟩ => ?_
  rw [erase_cons_head] at unlock
  refine (Cache.incLockRef_turn (matchResult.lastDeviceNode :: others) unlock.sound
    (still _ answer.lockable)).bind fun c₆ _ lock => ?_
  have third := unlock.trans lock
  -- both lengths end with a page, and the assertion allows less than a page beyond
  have later : req.cacheProtectedLen ≤ len := by
    have bound : req.cacheProtectedLen ≤ matchResult.deviceIndices.length + cfg.pageSize - 1 :=
      of_decide_eq_true near
    rw [newLength] at bound
    exact le_of_dvd_of_lt prevAligned aligned (by omega)
  obtain ⟨rowLength, rowRest⟩ :
      (writeRow req.table req.cacheProtectedLen
          (matchResult.deviceIndices.drop req.cacheProtectedLen)).length = req.table.length ∧ _ :=
    writeRow_drop runs.protected_le (newLength ▸ inTable) (newLength ▸ later)
  have turn := (first.mono fun _ member => mem_cons_of_mem _ member).trans
    ((second.mono fun _ member => mem_cons_of_mem _ member).trans
      (third.mono fun _ member => mem_cons_of_mem _ member))
  dsimp only
  generalize writeRow req.table req.cacheProtectedLen _ = row at rowLength rowRest ⊢
  have restLength : ((row.take req.fillIds.length).drop matchResult.deviceIndices.length).length =
      req.fillIds.length - len := by
    rw [length_drop, length_take_of_le (rowLength.symm ▸ runs.filled), newLength]
  have prefixLength : (matchResult.deviceIndices ++
      (row.take req.fillIds.length).drop matchResult.deviceIndices.length).length =
        req.fillIds.length := by
    rw [length_append]
    omega
  -- the request keeps the pages behind what is cached
  refine ⟨⟨pages.drop ((len - req.cacheProtectedLen) / cfg.pageSize), ?_, ?_⟩,
    ⟨phase, rfl, rfl, rfl, prefixLength⟩, rfl⟩
  · rw [Req.locks_of_scheduled (by rw [phase]; nofun)]
    refine turn.recount (fun p => ?_) fun i => ?_
    · have parts := congrArg (count p)
        (take_append_drop ((len - req.cacheProtectedLen) / cfg.pageSize) pages)
      rw [count_append] at parts
      simp only [append_nil, nil_append, count_nil]
      omega
    · simp only [Req.slotsOwned, append_nil, count_append]
      omega
  rw [phase]
  exact {
    follows := ⟨_, _, isKey, keyLength.trans newLength.symm,
      third.reach _ mem_cons_self _ _ _ path⟩
    laid := by
      have pageRest := Nat.div_mul_cancel (Nat.dvd_sub aligned prevAligned)
      have rest := runs.laid.drop (k := (len - req.cacheProtectedLen) / cfg.pageSize) (by
        rw [Req.kvOwned, length_drop]
        omega)
      rw [pageRest, Req.kvOwned, drop_drop, Nat.add_sub_cancel' later, ← newLength,
        ← rowRest] at rest
      exact newLength ▸ rest
    covered := newLength.le.trans inFill
    filled := runs.filled.trans_eq rowLength.symm
    fill := runs.fill
    committed := runs.committed.trans rowLength.symm
    known := rowLength.le.trans runs.known
    prefixes := prefixLength.le.trans (runs.filled.trans_eq rowLength.symm)
    chunk := by
      intro whole
      have filled : row.length ≤ req.fillIds.length := (whole.symm.trans prefixLength).le
      exact drop_left.trans (congrArg _ (take_of_length_le filled))
    pool := runs.pool
    buffer := rfl
    size := size }

theorem cacheUnfinishedReq_handled (sound : c.Sound cfg.toCacheConfig (req.locks ++ others))
    (phase : req.phase = .running) (fits : req.Fits cfg c.tree pages) :
    Calm (cfg.enableMambaExtraBuffer = true ∧
        ∀ t, req.mambaLastTrackSeqlen = some t → req.Caches cfg t)
      (fun r => (∃ pages', Handled cfg others c r.2 req r.1 pages pages') ∧ req.CachedTo r.1 ∧
        (cfg.disable = false → cfg.enableMambaExtraBuffer = true →
          r.1.mambaLastTrackSeqlen = none)) (cacheUnfinishedReq cfg req c) := by
  have runs := fits.runs phase
  rw [cacheUnfinishedReq]
  split
  · next cacheLen enabled isLen =>
    rw [Req.locks_of_scheduled (by rw [phase]; nofun)] at sound
    refine Calm.imp ((insertUnfinished_handled enabled sound phase runs).mono ?_) ?_
    · exact fun r ⟨handled, cached, unrecorded⟩ => ⟨handled, cached, fun _ _ => unrecorded⟩
    · rintro ⟨extra, caches⟩
      rw [if_pos extra] at isLen
      exact caches cacheLen isLen
  · next untracked =>
    have filled := length_take_of_le runs.filled
    refine ⟨⟨pages, handled_here sound rfl rfl ?_⟩, ⟨phase, rfl, rfl, rfl, filled⟩,
      fun enabled extra => ?_⟩
    · rw [phase]
      exact { runs with
        prefixes := length_take_le' ..
        chunk := by
          intro whole
          exact congrArg _ (take_of_length_le (whole.symm.trans filled).le) }
    · cases recorded : req.mambaLastTrackSeqlen with
      | none => rfl
      | some t => exact absurd (by rw [if_pos extra, recorded]) (untracked t enabled)

/-! ### The rest of a row -/

section Rest

variable {t : Tree} {commit : Nat}

abbrev Req.pagesUpTo (cfg : ServerConfig) (req : Req) (commit : Nat) : Nat :=
  ceilDiv (commit - req.cacheProtectedLen) cfg.pageSize

theorem Req.Runs.taken (runs : req.Runs cfg t pages) (inside : commit ≤ req.table.length) :
    Laid cfg.pageSize (pages.take (req.pagesUpTo cfg commit))
      ((req.table.take commit).drop req.cacheProtectedLen) := by
  obtain ⟨covers, tight⟩ := le_ceilDiv_mul cfg.positive (commit - req.cacheProtectedLen)
  rw [drop_take]
  refine runs.laid.take_part ?_ covers tight
  rw [Req.kvOwned, length_drop]
  omega

theorem Req.Runs.rest (runs : req.Runs cfg t pages) (aligned : cfg.pageSize ∣ req.cacheProtectedLen)
    (later : req.cacheProtectedLen ≤ commit) :
    Laid cfg.pageSize (pages.drop (req.pagesUpTo cfg commit))
      (req.table.drop (ceilDiv commit cfg.pageSize * cfg.pageSize)) := by
  have positive : 0 < cfg.pageSize := cfg.positive
  obtain ⟨covers, near⟩ := le_ceilDiv_mul cfg.positive (commit - req.cacheProtectedLen)
  have start : ceilDiv commit cfg.pageSize * cfg.pageSize =
      req.cacheProtectedLen + req.pagesUpTo cfg commit * cfg.pageSize := by
    obtain ⟨q, isFront⟩ := aligned
    rw [Req.pagesUpTo] at *
    generalize ceilDiv (commit - req.cacheProtectedLen) cfg.pageSize = k at covers near ⊢
    have sum : (q + k) * cfg.pageSize = req.cacheProtectedLen + k * cfg.pageSize := by
      rw [Nat.add_mul, isFront, Nat.mul_comm]
    rw [← sum, ceilDiv_eq positive (k := q + k) (by omega) (by omega)]
  rw [start, ← drop_drop, ← Req.kvOwned]
  by_cases inside : req.pagesUpTo cfg commit * cfg.pageSize ≤ req.kvOwned.length
  · exact runs.laid.drop inside
  -- all the pages are before
  have tight := runs.laid.tight
  have fewer : pages.length < req.pagesUpTo cfg commit + 1 := by
    apply Nat.lt_of_mul_lt_mul_right (a := cfg.pageSize)
    rw [Nat.succ_mul]
    omega
  rw [drop_of_length_le (Nat.le_of_lt_succ fewer), drop_of_length_le (by omega)]
  exact .nil positive

end Rest

/-! ### The slots of a finished request -/

theorem trackBufferToFree_count {mapping freed : List Nat} {next slot : Nat}
    (size : mapping.length = cfg.mambaPingPongTrackBufferSize)
    (has : mapping[getMambaPingPongOtherIdx cfg next]? = some slot)
    (ran : trackBufferToFree cfg mapping (some (getMambaPingPongOtherIdx cfg next)) = .ok freed)
    (i : Nat) : freed.count i + [slot].count i = mapping.count i := by
  generalize getMambaPingPongOtherIdx cfg next = keep at has ran
  obtain ⟨isKeep, ran⟩ := check_bind_ok ran
  split at ran
  · next two =>
    cases ran
    rw [two] at size
    obtain ⟨a, b, rfl⟩ := length_eq_two.mp size
    rw [Bool.or_eq_true, beq_iff_eq, beq_iff_eq] at isKeep
    rcases isKeep with rfl | rfl
    · cases has
      exact (Nat.add_comm ..).trans count_append.symm
    · cases has
      exact count_append.symm
  · next one =>
    obtain ⟨isFirst, ran⟩ := check_bind_ok ran
    cases ran
    rw [beq_iff_eq] at isFirst
    subst isFirst
    have single : mapping.length = 1 := by
      rw [size]
      rw [ServerConfig.mambaPingPongTrackBufferSize] at one ⊢
      split at one
      · exact absurd rfl one
      · next single => exact if_neg single
    obtain ⟨a, rfl⟩ := length_eq_one_iff.mp single
    cases has
    exact Nat.zero_add _

theorem freeMambaCache_turn {index : Nat} (sound : c.Sound cfg.toCacheConfig held)
    (pool : req.mambaPoolIdx = some index) :
    Calm safe (fun r => ∃ freed,
      Cache.Turn cfg.toCacheConfig held held c r.2 [] [] (index :: freed) [] ∧
        r.1 = { req with mambaPoolIdx := none } ∧
        if cfg.enableMambaExtraBuffer then
          trackBufferToFree cfg req.trackBufferMapping keep = .ok freed
        else freed = []) (freeMambaCache cfg req keep c) := by
  rw [freeMambaCache, pool]
  have first : Cache.Turn cfg.toCacheConfig held held c _ [] [] [index] [] :=
    Cache.freeMamba_turn sound index
  split
  · refine Ends.bind (Q := fun _ => True) ?_ fun freed toFree _ =>
      ⟨freed, first.trans (Cache.freeMambas_turn first.sound freed), rfl, toFree⟩
    rw [trackBufferToFree.eq_def]
    split
    · trivial
    · refine (calm_check (by exact False.elim)).bind fun _ _ _ => ?_
      split
      · trivial
      · exact (calm_check (by exact False.elim)).bind fun _ _ _ => trivial
  · exact ⟨[], first, rfl, rfl⟩

/-- The end of `cache_finished_req` for the slots: with those that the tree has taken, it has
    got all the slots of the request. -/
theorem finishSlots_turn {exist : Bool} (slot : Nat) (sound : c.Sound cfg.toCacheConfig held)
    (runs : req.Runs cfg t pages) (given : exist = false → donatedSlot cfg req = .ok (slot, keep)) :
    Calm safe (fun r => ∃ freed, Cache.Turn cfg.toCacheConfig held held c r.2 [] [] freed [] ∧
        (∀ i, freed.count i + (if exist then [] else [slot]).count i = req.slotsOwned.count i) ∧
        r.1 = { req with mambaPoolIdx :=
          if cfg.enableMambaExtraBuffer || exist then none else req.mambaPoolIdx })
      (if cfg.enableMambaExtraBuffer || exist then
        freeMambaCache cfg req (if exist then none else keep) c
      else .ok (req, c)) := by
  obtain ⟨index, pool⟩ := Option.isSome_iff_exists.mp runs.pool
  have isBuffer := runs.buffer
  cases frees : cfg.enableMambaExtraBuffer || exist with
  | true =>
    refine (freeMambaCache_turn sound pool).mono ?_
    rintro r ⟨freed, turn, isNext, toFree⟩
    refine ⟨index :: freed, turn, fun i => ?_, isNext⟩
    rw [Req.slotsOwned, pool, isBuffer]
    cases extra : cfg.enableMambaExtraBuffer with
    | false =>
      rw [extra] at frees toFree
      rw [Bool.false_or] at frees
      rw [toFree, frees]
      rfl
    | true =>
      rw [extra] at toFree
      cases exist with
      | true =>
        cases toFree
        rfl
      | false =>
        have gave := given rfl
        rw [donatedSlot, if_pos extra, isBuffer, if_pos extra] at gave
        dsimp only [Option.bind_some] at gave
        cases has : req.trackBufferMapping[getMambaPingPongOtherIdx cfg req.mambaNextTrackIdx]? with
        | none =>
          rw [has] at gave
          cases gave
        | some donated =>
          rw [has] at gave
          cases gave
          -- of the buffer all but the donated slot is freed
          have parts := trackBufferToFree_count (runs.size extra) has toFree i
          simp only [Option.toList_some, cons_append, nil_append, if_pos,
            Option.getD_some, count_cons, Bool.false_eq_true, if_false] at parts ⊢
          omega
  | false =>
    -- nothing is freed: the request's own slot is the donated one
    obtain ⟨plain, missing⟩ := Bool.or_eq_false_iff.mp frees
    have gave := given missing
    rw [donatedSlot, plain, pool] at gave
    cases gave
    refine ⟨[], .refl sound, fun i => ?_, rfl⟩
    rw [Req.slotsOwned, pool, isBuffer, plain, missing]
    exact Nat.zero_add _

/-! ### Finished requests -/

theorem freeUncached_turn {commit : Nat} (sound : c.Sound cfg.toCacheConfig held)
    (runs : req.Runs cfg c.tree pages) (inside : commit ≤ req.table.length)
    (cached : cacheLen ≤ commit) (aligned : cfg.pageSize ∣ cacheLen) :
    Cache.Turn cfg.toCacheConfig held held c
      (if cacheLen ≠ commit then
        c.freeKv cfg.toCacheConfig ((req.table.take commit).drop
          (max cacheLen req.cacheProtectedLen))
      else c)
      ((pages.take (req.pagesUpTo cfg commit)).drop
        ((cacheLen - req.cacheProtectedLen) / cfg.pageSize)) [] [] [] := by
  have prevAligned := runs.follows.aligned (sound.paged.aligned sound.inv.shape)
  have cut := Nat.div_mul_cancel (Nat.dvd_sub aligned prevAligned)
  split
  · have laid := (runs.taken inside).drop (k := (cacheLen - req.cacheProtectedLen) / cfg.pageSize)
      (by
      rw [length_drop, length_take_of_le inside]
      omega)
    rw [cut, drop_drop] at laid
    rw [show max cacheLen req.cacheProtectedLen =
      req.cacheProtectedLen + (cacheLen - req.cacheProtectedLen) by omega]
    exact Cache.freeKv_turn sound laid
  · next whole =>
    have positive : 0 < cfg.pageSize := cfg.positive
    have upTo : req.pagesUpTo cfg commit = (cacheLen - req.cacheProtectedLen) / cfg.pageSize := by
      apply ceilDiv_eq positive <;> omega
    rw [upTo, drop_of_length_le (length_take_le ..)]
    exact .refl sound

theorem cutRow_eq (cfg : ServerConfig) (req : Req) (c : Cache) (commit cacheLen : Nat) :
    (if cacheLen ≠ commit then
        ((req.allIds.take commit).take cacheLen, (req.table.take commit).take cacheLen,
          c.freeKv cfg.toCacheConfig
            ((req.table.take commit).drop (max cacheLen req.cacheProtectedLen)))
      else (req.allIds.take commit, req.table.take commit, c)) =
      (req.allIds.take (min cacheLen commit), req.table.take (min cacheLen commit),
        if cacheLen ≠ commit then
          c.freeKv cfg.toCacheConfig
            ((req.table.take commit).drop (max cacheLen req.cacheProtectedLen))
        else c) := by
  split
  · rw [take_take, take_take]
  · next whole => rw [Decidable.not_not.mp whole, Nat.min_self]

/-- What a request that finishes has recorded in its buffer: whole pages of what is committed. -/
def Req.Recorded (cfg : ServerConfig) (req : Req) (commit : Nat) : Prop :=
  cfg.enableMambaExtraBuffer = true ∧
    ∀ t, req.mambaLastTrackSeqlen = some t → cfg.pageSize ∣ t ∧ t ≤ commit

theorem donatedSlot_calm (cfg : ServerConfig) (req : Req) :
    Calm safe (fun _ => True) (donatedSlot cfg req) := by
  rw [donatedSlot]
  split
  · dsimp only
    split
    · exact False.elim
    · trivial
  · split
    · exact False.elim
    · trivial

/-- The insertion of a finished request: of the pages up to `commit` the tree takes those up to
    the length that is cached, and the others are freed. -/
theorem insertFinished_turn {commit : Nat} (enabled : cfg.disable = false)
    (sound : c.Sound cfg.toCacheConfig (req.lastNode :: others))
    (runs : req.Runs cfg c.tree pages) (inside : commit ≤ req.table.length) :
    Calm (req.Recorded cfg commit) (fun r => ∃ slot, donatedSlot cfg req = .ok (slot, r.1) ∧
        Cache.Turn cfg.toCacheConfig (req.lastNode :: others) (req.lastNode :: others) c r.2.2
          (pages.take (req.pagesUpTo cfg commit)) [] (if r.2.1 then [] else [slot]) [] ∧
        (cfg.enableMambaExtraBuffer = false →
          c.tree.HasState req.extraKey (req.allIds.take commit) → r.2.1 = true))
      (insertFinished cfg req (req.allIds.take commit) (req.table.take commit) c) := by
  have tokensLength : (req.allIds.take commit).length = commit :=
    length_take_of_le (inside.trans runs.known)
  rw [insertFinished, tokensLength]
  dsimp only
  generalize isLen : (if cfg.enableMambaExtraBuffer = true then req.mambaLastTrackSeqlen.getD 0
    else commit) = cacheLen
  rw [cutRow_eq]
  have kvLength : (req.table.take (min cacheLen commit)).length = min cacheLen commit :=
    length_take_of_le (by omega)
  rw [kvLength]
  -- a recorded length ends with a page inside the row
  refine (calm_check fun _ recorded => ?_).bind fun _ _ isAligned => ?_
  · obtain ⟨extra, recorded⟩ := recorded
    obtain ⟨aligned, cached⟩ : cfg.pageSize ∣ cacheLen ∧ cacheLen ≤ commit := by
      rw [← isLen, if_pos extra]
      cases last : req.mambaLastTrackSeqlen with
      | none => exact ⟨Nat.dvd_zero _, Nat.zero_le _⟩
      | some t => exact recorded t last
    rw [Nat.min_eq_left cached, Nat.div_mul_cancel aligned]
    exact beq_self_eq_true _
  rw [beq_iff_eq] at isAligned
  have cached : cacheLen ≤ commit := by
    have floor := Nat.div_mul_le_self (min cacheLen commit) cfg.pageSize
    omega
  rw [Nat.min_eq_left cached] at isAligned ⊢
  rw [← isAligned]
  have aligned : cfg.pageSize ∣ cacheLen := ⟨_, isAligned.trans (Nat.mul_comm ..)⟩
  refine (donatedSlot_calm cfg req).bind fun ⟨slot, keep'⟩ gave _ => ?_
  rw [take_take, take_take, Nat.min_self]
  -- what lies behind the cached length is freed before the insertion
  have first := freeUncached_turn sound runs inside cached aligned
  have runs₁ := { runs with follows := runs.follows.mono (first.reach _ mem_cons_self) }
  have keyLength : (req.allIds.take cacheLen).length = cacheLen :=
    length_take_of_le (cached.trans (inside.trans runs.known))
  refine (Cache.insert_turn slot first.sound enabled (Req.Runs.offers runs₁ first.sound
    (cached.trans inside) aligned ⟨_, take_append_drop ..⟩ keyLength)).bind
      fun ⟨result, c₂⟩ _ inserted => ?_
  refine ⟨slot, gave, (first.trans inserted.turn).recount (fun p => ?_) fun i => ?_,
    fun plain hasState => inserted.found ?_⟩
  · have fewer : (cacheLen - req.cacheProtectedLen) / cfg.pageSize ≤ req.pagesUpTo cfg commit := by
      exact Nat.div_le_div_right (by have positive : 0 < cfg.pageSize := cfg.positive; omega)
    have parts := congrArg (count p) (take_append_drop
      ((cacheLen - req.cacheProtectedLen) / cfg.pageSize) (pages.take (req.pagesUpTo cfg commit)))
    rw [take_take, Nat.min_eq_left fewer, count_append] at parts
    simp only [count_append, count_nil]
    omega
  · simp only [nil_append]
  · have whole : cacheLen = commit := by rw [← isLen, plain, if_neg Bool.false_ne_true]
    rw [if_neg (Decidable.not_not.mpr whole), whole]
    exact hasState

theorem Req.cacheCommitLen_le (cfg : ServerConfig) (req : Req) :
    req.cacheCommitLen cfg ≤ req.kvCommittedLen := by
  rw [Req.cacheCommitLen]
  split
  · exact Nat.min_le_left ..
  · exact Nat.le_refl _

theorem Req.Follows.disabled (follows : req.Follows c.tree) (sound : c.Sound cfg.toCacheConfig held)
    (disabled : cfg.disable = true) : req.cacheProtectedLen = 0 ∧ req.lastNode = rootNode := by
  obtain ⟨tokens, values, -, length, path⟩ := follows
  rw [sound.disabled disabled] at path
  rcases path.snoc_cases with ⟨isRoot, isNil, -⟩ | ⟨_, _, _, -, child, -⟩
  · rw [← length, isNil]
    exact ⟨rfl, isRoot⟩
  · cases child.member

theorem cacheFinishedReq_eq (enabled : cfg.disable = false) :
    cacheFinishedReq cfg req isInsert c =
      ((if isInsert then
          insertFinished cfg req (req.allIds.take (req.cacheCommitLen cfg))
            (req.table.take (req.cacheCommitLen cfg)) c
        else .ok (none, true, c.freeKv cfg.toCacheConfig
          ((req.table.take (req.cacheCommitLen cfg)).drop req.cacheProtectedLen))) >>= fun x =>
        (if cfg.enableMambaExtraBuffer || x.2.1 then
            freeMambaCache cfg req (if x.2.1 then none else x.1) x.2.2
          else .ok (req, x.2.2)) >>= fun y =>
        y.2.decLockRef cfg.toCacheConfig y.1.lastNode >>= fun c => .ok (y.1, c)) := by
  rw [cacheFinishedReq, enabled]
  cases isInsert with
  | true =>
    refine congrArg (Bind.bind _) (funext fun x => ?_)
    by_cases frees : (cfg.enableMambaExtraBuffer || x.2.1) = true
    · rw [if_pos frees]
      exact if_pos frees
    · rw [if_neg frees]
      exact if_neg frees
  | false =>
    have frees : (cfg.enableMambaExtraBuffer || true) = true := Bool.or_true _
    exact (if_pos frees).trans (congrArg (Bind.bind · _) (if_pos frees).symm)

theorem cacheFinishedReq_turn (sound : c.Sound cfg.toCacheConfig (req.lastNode :: others))
    (runs : req.Runs cfg c.tree pages) :
    Calm (isInsert = true → req.Recorded cfg (req.cacheCommitLen cfg)) (fun r =>
      Cache.Turn cfg.toCacheConfig others others c r.2
        (pages.take (req.pagesUpTo cfg (req.cacheCommitLen cfg))) [] req.slotsOwned [] ∧
      ∃ index, r.1 = { req with mambaPoolIdx := index } ∧
        (cfg.enableMambaExtraBuffer = false →
          (cfg.disable = false → isInsert = true →
            c.tree.HasState req.extraKey (req.allIds.take (req.cacheCommitLen cfg))) →
          index = none)) (cacheFinishedReq cfg req isInsert c) := by
  have inside : req.cacheCommitLen cfg ≤ req.table.length :=
    (req.cacheCommitLen_le cfg).trans runs.committed.le
  have taken := runs.taken inside
  cases disabled : cfg.disable with
  | true =>
    rw [cacheFinishedReq, if_pos disabled]
    -- a disabled cache takes nothing: all is freed
    obtain ⟨nothing, isRoot⟩ := runs.follows.disabled sound disabled
    rw [nothing] at taken
    have sound' : c.Sound cfg.toCacheConfig others := sound.rehold fun n notRoot => by
      rw [isRoot, count_cons_of_ne notRoot.symm]
    have first : Cache.Turn cfg.toCacheConfig others others c _ _ [] [] [] :=
      Cache.freeKv_turn sound' taken
    have whole : ∀ c, freeMambaCache cfg req none c = if cfg.enableMambaExtraBuffer || true then
        freeMambaCache cfg req (if true then none else none) c else .ok (req, c) :=
      fun _ => (if_pos (Bool.or_true _)).symm
    rw [whole]
    refine (finishSlots_turn 0 first.sound runs (by nofun)).mono fun r
      ⟨freed, second, all, isNext⟩ =>
      ⟨(first.trans second).recount (fun p => ?_) fun i => ?_, none, ?_, fun _ _ => rfl⟩
    · simp only [append_nil]
    · have counted := all i
      simp only [nil_append, if_pos, count_nil] at counted ⊢
      omega
    · rw [isNext, Bool.or_true, if_pos rfl]
  | false =>
    rw [cacheFinishedReq_eq disabled]
    -- the pages up to the committed length, and a state for the tree
    have indices : Calm (isInsert = true → req.Recorded cfg (req.cacheCommitLen cfg))
        (fun x => ∃ slot, (x.2.1 = false → donatedSlot cfg req = .ok (slot, x.1)) ∧
          Cache.Turn cfg.toCacheConfig (req.lastNode :: others) (req.lastNode :: others) c x.2.2
            (pages.take (req.pagesUpTo cfg (req.cacheCommitLen cfg))) []
            (if x.2.1 then [] else [slot]) [] ∧
          (cfg.enableMambaExtraBuffer = false →
            (isInsert = true →
              c.tree.HasState req.extraKey (req.allIds.take (req.cacheCommitLen cfg))) →
            x.2.1 = true))
        (if isInsert then
          insertFinished cfg req (req.allIds.take (req.cacheCommitLen cfg))
            (req.table.take (req.cacheCommitLen cfg)) c
        else .ok (none, true, c.freeKv cfg.toCacheConfig
          ((req.table.take (req.cacheCommitLen cfg)).drop req.cacheProtectedLen))) := by
      cases isInsert with
      | true =>
        refine Calm.imp ((insertFinished_turn disabled sound runs inside).mono ?_) fun safe =>
          safe rfl
        exact fun x ⟨slot, gave, turn, found⟩ =>
          ⟨slot, fun _ => gave, turn, fun plain hasState => found plain (hasState rfl)⟩
      | false => exact ⟨0, nofun, Cache.freeKv_turn sound taken, fun _ _ => rfl⟩
    -- then the slots that the tree has not taken, and the lock
    refine indices.bind fun ⟨keep, exist, c₁⟩ _ ⟨slot, given, first, found⟩ => ?_
    refine (finishSlots_turn slot first.sound runs given).bind
      fun ⟨req₁, c₂⟩ _ ⟨freed, second, all, isReq⟩ => ?_
    rw [isReq]
    refine (Cache.decLockRef_turn (req.lastNode :: others) second.sound mem_cons_self).bind
      fun c₃ _ ⟨third, _⟩ => ?_
    rw [erase_cons_head] at third
    have turn := (first.trans (second.trans third)).mono
      fun _ member => mem_cons_of_mem _ member
    refine ⟨turn.recount (fun p => ?_) fun i => ?_, _, rfl, fun plain hasState => ?_⟩
    · simp only [append_nil]
    · have counted := all i
      simp only [append_nil, count_append] at counted ⊢
      omega
    · rw [found plain (hasState rfl), Bool.or_true, if_pos rfl]

theorem Req.Runs.spared (runs : req.Runs cfg t pages) (phase : req.phase = .running)
    (spares : cfg.stripThinkingCache = true → req.phase = .running →
      req.cacheProtectedLen ≤ req.cacheCommitLen cfg) :
    req.cacheProtectedLen ≤ req.cacheCommitLen cfg := by
  cases strips : cfg.stripThinkingCache with
  | true => exact spares strips phase
  | false =>
    rw [Req.cacheCommitLen, strips, runs.committed]
    exact runs.protected_le

theorem releaseKvCache_turn (sound : c.Sound cfg.toCacheConfig (req.lastNode :: others))
    (phase : req.phase = .running) (runs : req.Runs cfg c.tree pages)
    (spared : req.cacheProtectedLen ≤ req.cacheCommitLen cfg) :
    Calm (isInsert = true → req.Recorded cfg (req.cacheCommitLen cfg)) (fun r =>
      Cache.Turn cfg.toCacheConfig others others c r.2 pages [] req.slotsOwned [] ∧
      ∃ index, r.1 = { req with phase := .waiting, table := [], mambaPoolIdx := index } ∧
        (cfg.enableMambaExtraBuffer = false →
          (cfg.disable = false → isInsert = true →
            c.tree.HasState req.extraKey (req.allIds.take (req.cacheCommitLen cfg))) →
          index = none)) (releaseKvCache cfg req isInsert c) := by
  rw [releaseKvCache, if_neg (Decidable.not_not.mpr phase)]
  refine (cacheFinishedReq_turn sound runs).bind
    fun ⟨req₁, c₁⟩ _ ⟨first, index, isReq, cleared⟩ => ?_
  subst isReq
  refine (calm_check (by exact False.elim)).bind fun _ _ _ => ?_
  have aligned := runs.follows.aligned (sound.paged.aligned sound.inv.shape)
  have rest := runs.rest aligned spared
  -- rounding up to a page does nothing for pages of one index
  have start : (if 1 < cfg.pageSize then
      ceilDiv (req.cacheCommitLen cfg) cfg.pageSize * cfg.pageSize else req.cacheCommitLen cfg) =
      ceilDiv (req.cacheCommitLen cfg) cfg.pageSize * cfg.pageSize := by
    split
    · rfl
    · next single =>
      have one : cfg.pageSize = 1 := by
        have positive : 0 < cfg.pageSize := cfg.positive
        omega
      rw [one, ceilDiv_eq Nat.one_pos (k := req.cacheCommitLen cfg) (by omega) (by omega),
        Nat.mul_one]
  have second : ∀ startP, startP = ceilDiv (req.cacheCommitLen cfg) cfg.pageSize * cfg.pageSize →
      Cache.Turn cfg.toCacheConfig others others c₁
        (if startP < req.table.length then c₁.freeKv cfg.toCacheConfig (req.table.drop startP)
          else c₁)
        (pages.drop (req.pagesUpTo cfg (req.cacheCommitLen cfg))) [] [] [] := by
    rintro startP rfl
    split
    · exact Cache.freeKv_turn first.sound rest
    · next past =>
      -- nothing is left, and so there is no page
      rw [drop_of_length_le (Nat.le_of_not_lt past)] at rest
      rw [rest.eq_nil]
      exact .refl first.sound
  refine ⟨(first.trans (second _ start)).recount (fun p => ?_) fun i => ?_, index, rfl, cleared⟩
  · rw [take_append_drop, append_nil]
  · rw [append_nil, append_nil]

end Functions

end Engram.Radix
