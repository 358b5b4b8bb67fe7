import Engram.Lib.Ledger
import Engram.Radix.Caching

/-!
# Conservation of indices and slots

Over every run, a page of KV indices is free, in the tree, or of one live request
(`kv_indices_conserved`), and so is a slot of the Mamba pool (`slots_of_requests_conserved`).
-/

namespace Engram.Radix

open Lib Lib.Transition List Function

namespace Engine

variable {cfg : ServerConfig} {numPages size : Nat} {s s' : Engine} {c' : Cache} {req' : Req}
  {pages : Nat → List Nat} {id : Nat} {safe : Prop} {f : Req → Cache → Except Failure (Req × Cache)}

def locks (s : Engine) (ids : List Nat) : List NodeId :=
  ids.flatMap fun id => (s.reqs id).locks

theorem locks_update {ids : List Nat} (other : id ∉ ids) (req' : Req) (c' : Cache) :
    locks { s with cache := c', reqs := Function.update s.reqs id req' } ids = s.locks ids := by
  apply flatMap_congr
  intro id' member
  dsimp only
  rw [update_of_ne]
  rintro rfl
  exact other member

structure Good (cfg : ServerConfig) (numPages size : Nat) (s : Engine) (pages : Nat → List Nat) :
    Prop where
  distinct : s.live.Nodup
  sound : s.cache.Sound cfg.toCacheConfig (s.locks s.live)
  fits : ∀ id ∈ s.live, (s.reqs id).Fits cfg s.cache.tree (pages id)
  kv : Accounted (fun i => (List.range' 1 numPages).count (i / cfg.pageSize))
    (s.cache.kvCount cfg.toCacheConfig) s.live fun id i => (pages id).count (i / cfg.pageSize)
  slots : Accounted (fun i => (List.range' 1 size).count i) s.cache.slotCount s.live
    fun id i => (s.reqs id).slotsOwned.count i

theorem reset_good : (reset numPages size).Good cfg numPages size fun _ => [] where
  distinct := nodup_nil
  sound := Cache.reset_sound numPages size
  fits := fun _ member => absurd member not_mem_nil
  kv := fun _ => rfl
  slots := fun _ => rfl

/-! ### One request -/

theorem locks_perm (member : id ∈ s.live) :
    ((s.reqs id).locks ++ s.locks (s.live.erase id)).Perm (s.locks s.live) := by
  have moved := (perm_cons_erase member).symm.flatMap_right fun id => (s.reqs id).locks
  exact moved

namespace Good

section

variable (good : s.Good cfg numPages size pages)

include good

theorem sound_at (member : id ∈ s.live) :
    s.cache.Sound cfg.toCacheConfig ((s.reqs id).locks ++ s.locks (s.live.erase id)) :=
  good.sound.perm (locks_perm member)

theorem fresh (member : id ∈ s.live) (i : Nat) :
    s.cache.kvCount cfg.toCacheConfig i + (pages id).count (i / cfg.pageSize) ≤ 1 :=
  (good.kv.le_total member i).trans (nodup_iff_count_le_one.mp nodup_range' _)

theorem others_fit {held' : List NodeId} {pagesIn pagesOut slotsIn slotsOut : List Nat}
    (turn : Cache.Turn cfg.toCacheConfig (s.locks (s.live.erase id)) held' s.cache c'
      pagesIn pagesOut slotsIn slotsOut) {other : Nat} (isOther : other ∈ s.live.erase id) :
    (s.reqs other).Fits cfg c'.tree (pages other) := by
  refine (good.fits other (mem_of_mem_erase isOther)).mono fun n locked => ?_
  exact turn.reach n (mem_flatMap.mpr ⟨other, isOther, locked⟩)

theorem handled {pages' : List Nat} (member : id ∈ s.live)
    (handled : Handled cfg (s.locks (s.live.erase id)) s.cache c' (s.reqs id) req' (pages id)
      pages') :
    Good cfg numPages size { s with cache := c', reqs := Function.update s.reqs id req' }
      (Function.update pages id pages') where
  distinct := good.distinct
  sound := by
    -- the locks of the other requests are those before
    have moved := locks_perm (s := { s with cache := c', reqs := update s.reqs id req' })
      member
    dsimp only at moved
    rw [update_self, locks_update good.distinct.not_mem_erase] at moved
    exact handled.turn.sound.perm moved.symm
  fits := by
    intro other isLive
    dsimp only at isLive ⊢
    by_cases same : other = id
    · subst same
      rw [update_self, update_self]
      exact handled.fits
    · rw [update_of_ne same, update_of_ne same]
      exact good.others_fit handled.turn ((mem_erase_of_ne same).mpr isLive)
  kv := by
    refine good.kv.exchange good.distinct member (fun other _ different => ?_) fun i => ?_
    · rw [update_of_ne different]
    · rw [update_self]
      exact handled.turn.kv i
  slots := by
    refine good.slots.exchange good.distinct member (fun other _ different => ?_) fun i => ?_
    · dsimp only
      rw [update_of_ne different]
    · dsimp only
      rw [update_self]
      exact handled.turn.slots i

theorem released (member : id ∈ s.live)
    (turn : Cache.Turn cfg.toCacheConfig (s.locks (s.live.erase id)) (s.locks (s.live.erase id))
      s.cache c' (pages id) [] (s.reqs id).slotsOwned []) (finished : List Nat) :
    Good cfg numPages size
      ⟨c', Function.update s.reqs id req', s.live.erase id, finished⟩ pages where
  distinct := good.distinct.erase id
  sound := by
    have same : locks { s with cache := c', reqs := update s.reqs id req' }
        (s.live.erase id) = s.locks (s.live.erase id) :=
      locks_update good.distinct.not_mem_erase req' c'
    rw [← same] at turn
    exact turn.sound
  fits := by
    intro other isLive
    dsimp only at isLive ⊢
    rw [update_of_ne (good.distinct.mem_erase_iff.mp isLive).1]
    exact good.others_fit turn isLive
  kv := good.kv.leave member (fun _ _ => rfl) turn.kv
  slots := by
    refine good.slots.leave member (fun other isLive => ?_) turn.slots
    dsimp only
    rw [update_of_ne (good.distinct.mem_erase_iff.mp isLive).1]

theorem arrived {req : Req} (isNew : id ∉ s.live)
    (waits : req.Waits) (phase : req.phase = .waiting) :
    Good cfg numPages size
      { s with reqs := Function.update s.reqs id req, live := id :: s.live }
      (Function.update pages id []) := by
  have others : ∀ other ∈ s.live, other ≠ id := fun other member same => isNew (same ▸ member)
  refine ⟨nodup_cons.mpr ⟨isNew, good.distinct⟩, ?_, ?_, ?_, ?_⟩
  · have same : locks { s with reqs := update s.reqs id req, live := id :: s.live }
        (id :: s.live) = s.locks s.live := by
      rw [locks, flatMap_cons]
      dsimp only
      rw [update_self, Req.locks, if_pos phase]
      exact locks_update isNew req s.cache
    exact same ▸ good.sound
  · intro other member
    dsimp only
    rcases mem_cons.mp member with rfl | isLive
    · rw [update_self, update_self, Req.Fits, phase]
      exact ⟨waits, rfl⟩
    · rw [update_of_ne (others other isLive), update_of_ne (others other isLive)]
      exact good.fits other isLive
  · refine good.kv.arrive (fun i => ?_) fun other member => ?_
    · rw [update_self, count_nil]
    · rw [update_of_ne (others other member)]
  · refine good.slots.arrive (fun i => ?_) fun other member => ?_
    · dsimp only
      rw [update_self, waits.slotsOwned, count_nil]
    · dsimp only
      rw [update_of_ne (others other member)]

theorem turned
    (turn : Cache.Turn cfg.toCacheConfig (s.locks s.live) (s.locks s.live) s.cache c' [] [] [] []) :
    Good cfg numPages size { s with cache := c' } pages where
  distinct := good.distinct
  sound := turn.sound
  fits := fun id member => (good.fits id member).mono fun n locked =>
    turn.reach n (mem_flatMap.mpr ⟨id, member, locked⟩)
  kv := good.kv.rearrange turn.kv
  slots := good.slots.rearrange turn.slots

end

end Good

/-! ### Steps -/

/-- A request with a row is released with at least its protected tokens. With
    `strip_thinking_cache` the committed length of a request that has been retracted may be
    shorter. -/
def Spares (cfg : ServerConfig) (s : Engine) : Event → Prop
  | .finish id _ | .retract id => cfg.stripThinkingCache = true → (s.reqs id).phase = .running →
    (s.reqs id).cacheProtectedLen ≤ (s.reqs id).cacheCommitLen cfg
  | _ => True

instance (cfg : ServerConfig) (s : Engine) : ∀ event, Decidable (Spares cfg s event)
  | .finish _ _ | .retract _ => inferInstanceAs (Decidable (_ = _ → _ = _ → _ ≤ _))
  | .arrive .. | .admitted .. | .turnedAway .. | .extend .. | .decode _ | .track .. | .output ..
  | .cacheUnfinished _ | .matchPrefix _ | .evict .. => instDecidableTrue

theorem handle_ok (ran : s.handle id f = .ok s') :
    id ∈ s.live ∧ ∃ req' c', f (s.reqs id) s.cache = .ok (req', c') ∧
      s' = { s with cache := c', reqs := Function.update s.reqs id req' } := by
  obtain ⟨isLive, ran⟩ := check_bind_ok ran
  obtain ⟨⟨req', c'⟩, done, isNext⟩ := bind_ok ran
  cases isNext
  exact ⟨of_decide_eq_true isLive, req', c', done, rfl⟩

section Functions

variable {others : List NodeId} {c : Cache} {req : Req} {owned : List Nat}

/-- A request that is released: it is running, or it has nothing. Nothing is attributed to it
    afterwards where its state was not given to the tree and there is no extra buffer. -/
theorem release_turn {isInsert : Bool} (sound : c.Sound cfg.toCacheConfig (req.locks ++ others))
    (fits : req.Fits cfg c.tree owned)
    (spares : cfg.stripThinkingCache = true → req.phase = .running →
      req.cacheProtectedLen ≤ req.cacheCommitLen cfg) :
    Calm (req.phase = .running → isInsert = true → req.Recorded cfg (req.cacheCommitLen cfg))
      (fun r => Cache.Turn cfg.toCacheConfig others others c r.2 owned [] req.slotsOwned [] ∧
        ((req.phase = .running → cfg.enableMambaExtraBuffer = false ∧
          (cfg.disable = false → isInsert = true →
            c.tree.HasState req.extraKey (req.allIds.take (req.cacheCommitLen cfg)))) →
          r.1.slotsOwned = [])) (release cfg isInsert req c) := by
  refine (calm_check (by exact False.elim)).bind fun _ _ allowed => ?_
  rw [Req.Fits] at fits
  cases phase : req.phase with
  | waiting =>
    rw [phase] at fits
    obtain ⟨waits, rfl⟩ := fits
    rw [Req.locks, if_pos phase] at sound
    rw [releaseKvCache, if_pos (by simp [phase]), waits.mambaPoolIdx, waits.slotsOwned]
    exact ⟨.refl sound, fun _ => waits.slotsOwned⟩
  | admitted =>
    rw [phase] at allowed
    cases allowed
  | running =>
    rw [phase] at fits
    rw [Req.locks_of_scheduled (by simp [phase])] at sound
    have runs : req.Runs cfg c.tree owned := fits
    refine Calm.imp ((releaseKvCache_turn sound phase runs (runs.spared phase spares)).mono ?_)
      fun recorded => recorded rfl
    rintro ⟨req', c'⟩ ⟨turn, index, rfl, cleared⟩
    refine ⟨turn, fun clears => ?_⟩
    obtain ⟨plain, hasState⟩ := clears rfl
    rw [runs.buffer, plain, cleared plain hasState]
    rfl

theorem retractReq_handled (sound : c.Sound cfg.toCacheConfig (req.locks ++ others))
    (fits : req.Fits cfg c.tree owned)
    (spares : cfg.stripThinkingCache = true → req.phase = .running →
      req.cacheProtectedLen ≤ req.cacheCommitLen cfg) :
    Calm safe (fun r => (∃ pages', Handled cfg others c r.2 req r.1 owned pages') ∧
      r.1.phase = .waiting ∧ r.1.mambaLastTrackSeqlen = none) (retractReq cfg req c) := by
  refine (calm_check (by exact False.elim)).bind fun _ _ isRunning => ?_
  have phase := of_decide_eq_true isRunning
  have runs := fits.runs phase
  rw [Req.locks_of_scheduled (by simp [phase])] at sound
  refine (Calm.imp (releaseKvCache_turn sound phase runs (runs.spared phase spares)) nofun).bind
    fun r _ ⟨turn, _⟩ => ⟨⟨[], turn, ⟨rfl, rfl, rfl⟩, rfl⟩, rfl, rfl⟩

theorem evict_turn {held : List NodeId} (sound : c.Sound cfg.toCacheConfig held)
    (numTokens mambaNum : Int) :
    Calm safe (fun c' => Cache.Turn cfg.toCacheConfig held held c c' [] [] [] [])
      (evict cfg c numTokens mambaNum) := by
  -- the second half, from the cache that the first one leaves
  have half : ∀ c₁, Cache.Turn cfg.toCacheConfig held held c c₁ [] [] [] [] →
      Calm safe (fun c' => Cache.Turn cfg.toCacheConfig held held c c' [] [] [] [])
        (if 0 < mambaNum then c₁.evictMamba cfg.toCacheConfig mambaNum >>= fun x => .ok x.2
          else .ok c₁) := by
    intro c₁ first
    split
    · exact (Cache.evictMamba_turn first.sound mambaNum).bind fun _ _ second => first.trans second
    · exact first
  rw [evict]
  split
  · exact (Cache.evictFull_turn sound numTokens).bind fun _ _ first => half _ first
  · exact half _ (.refl sound)

end Functions

theorem handle_ends {Q : Req × Cache → Prop}
    (spec : id ∈ s.live → Calm safe Q (f (s.reqs id) s.cache)) :
    Calm safe (fun s' => id ∈ s.live ∧ ∃ r, Q r ∧
      s' = { s with cache := r.2, reqs := Function.update s.reqs id r.1 }) (s.handle id f) :=
  (calm_check (by exact False.elim)).bind fun _ _ isLive =>
    (spec (of_decide_eq_true isLive)).bind fun r _ holds =>
      ⟨of_decide_eq_true isLive, r, holds, rfl⟩

structure HandledAt (cfg : ServerConfig) (numPages size id : Nat) (R : Req → Prop)
    (s s' : Engine) : Prop where
  good : ∃ pages', s'.Good cfg numPages size pages'
  member : id ∈ s.live
  live : s'.live = s.live
  others : ∀ other, other ≠ id → s'.reqs other = s.reqs other
  holds : R (s'.reqs id)

namespace Good

theorem handle {R : Req → Prop} (good : s.Good cfg numPages size pages)
    (spec : id ∈ s.live → Calm safe (fun r =>
      (∃ pages', Handled cfg (s.locks (s.live.erase id)) s.cache r.2 (s.reqs id) r.1 (pages id)
        pages') ∧ R r.1) (f (s.reqs id) s.cache)) :
    Calm safe (HandledAt cfg numPages size id R s) (s.handle id f) := by
  refine (handle_ends spec).mono fun s' ⟨member, r, ⟨⟨pages', handled⟩, holds⟩, isNext⟩ => ?_
  subst isNext
  refine ⟨⟨_, good.handled member handled⟩, member, rfl,
    fun other different => update_of_ne different .., ?_⟩
  dsimp only
  rw [update_self]
  exact holds

theorem fromQueue {R : Req → Prop} (good : s.Good cfg numPages size pages)
    (spec : s.cache.Sound cfg.toCacheConfig (s.locks (s.live.erase id)) →
      (s.reqs id).phase = .waiting → (s.reqs id).Waits →
      Calm safe (fun r =>
        Handled cfg (s.locks (s.live.erase id)) s.cache r.2 (s.reqs id) r.1 [] [] ∧ R r.1)
        (f (s.reqs id) s.cache)) :
    Calm safe (HandledAt cfg numPages size id (fun req' => (s.reqs id).phase = .waiting ∧ R req') s)
      (s.handle id (Engine.fromQueue f)) := by
  refine good.handle fun member => (calm_check (by exact False.elim)).bind fun _ _ isWaiting => ?_
  have phase := of_decide_eq_true isWaiting
  have fits := good.fits id member
  have sound := good.sound_at member
  rw [Req.Fits, phase] at fits
  rw [Req.locks, if_pos phase] at sound
  refine (spec sound phase fits.1).mono ?_
  rintro r ⟨handled, holds⟩
  refine ⟨⟨[], ?_⟩, phase, holds⟩
  rw [fits.2]
  exact handled

/-! What each event does to a request. -/

section

variable (good : s.Good cfg numPages size pages)

include good

theorem admitted (id maxPrefixLen : Nat) :
    Calm True (HandledAt cfg numPages size id (fun req' => (s.reqs id).phase = .waiting ∧
      req'.phase = .admitted ∧ req'.mambaLastTrackSeqlen = (s.reqs id).mambaLastTrackSeqlen) s)
      (step cfg s (.admitted id maxPrefixLen)) := by
  rw [step]
  exact good.fromQueue fun sound _ waits => addOneReq_handled maxPrefixLen sound waits

theorem turnedAway (id maxPrefixLen : Nat) :
    Calm True (HandledAt cfg numPages size id (fun req' => (s.reqs id).phase = .waiting ∧
      req'.phase = .waiting ∧ req'.mambaLastTrackSeqlen = (s.reqs id).mambaLastTrackSeqlen) s)
      (step cfg s (.turnedAway id maxPrefixLen)) := by
  rw [step]
  exact good.fromQueue fun sound phase waits => revertMatch_handled maxPrefixLen sound phase waits

theorem extend (id extendInputLen : Nat) :
    Calm True (HandledAt cfg numPages size id ((s.reqs id).Extends extendInputLen) s)
      (step cfg s (.extend id extendInputLen)) := by
  rw [step]
  exact good.handle fun member => prepareForExtend_handled extendInputLen (good.sound_at member)
    (good.fits id member) (good.fresh member)

theorem decode (id : Nat) :
    Calm True (HandledAt cfg numPages size id (fun req' => (s.reqs id).phase = .running ∧
      ∃ table, req' = { s.reqs id with
        table := table, kvCommittedLen := (s.reqs id).kvCommittedLen + 1 }) s)
      (step cfg s (.decode id)) := by
  rw [step]
  exact good.handle fun member =>
    prepareForDecode_handled (good.sound_at member) (good.fits id member)
    (good.fresh member)

theorem track (id seqlen : Nat) :
    Calm True (HandledAt cfg numPages size id (fun req' => ∃ next last, req' = { s.reqs id with
        mambaNextTrackIdx := next, mambaLastTrackSeqlen := last } ∧
        (last = some seqlen ∨ last = (s.reqs id).mambaLastTrackSeqlen)) s)
      (step cfg s (.track id seqlen)) := by
  rw [step]
  refine good.handle fun member => (trackState_handled seqlen (good.sound_at member)
    (good.fits id member)).bind fun _ _ ⟨handled, holds⟩ => ?_
  exact ⟨⟨_, handled⟩, holds⟩

theorem output (id token : Nat) (reasoning : Bool) :
    Calm True (HandledAt cfg numPages size id (fun req' => ∃ reasoningTokens,
        req' = { s.reqs id with
          outputIds := (s.reqs id).outputIds ++ [token], reasoningTokens := reasoningTokens }) s)
      (step cfg s (.output id token reasoning)) := by
  rw [step]
  refine good.handle fun member => (appendOutput_handled token reasoning (good.sound_at member)
    (good.fits id member)).bind fun _ _ ⟨handled, holds⟩ => ?_
  exact ⟨⟨_, handled⟩, holds⟩

theorem cacheUnfinished (id : Nat) :
    Calm (cfg.enableMambaExtraBuffer = true ∧ (id ∈ s.live →
        ∀ t, (s.reqs id).mambaLastTrackSeqlen = some t → (s.reqs id).Caches cfg t))
      (HandledAt cfg numPages size id (fun req' => (s.reqs id).phase = .running ∧
        (s.reqs id).CachedTo req' ∧ (cfg.disable = false → cfg.enableMambaExtraBuffer = true →
          req'.mambaLastTrackSeqlen = none)) s)
      (step cfg s (.cacheUnfinished id)) := by
  rw [step]
  refine good.handle fun member => (calm_check (by exact False.elim)).bind fun _ _ isRunning => ?_
  have phase := of_decide_eq_true isRunning
  exact Calm.imp ((cacheUnfinishedReq_handled (good.sound_at member) phase
    (good.fits id member)).mono fun _ ⟨handled, holds⟩ => ⟨handled, phase, holds⟩)
      fun ⟨extra, caches⟩ => ⟨extra, caches member⟩

theorem retract (id : Nat) (spares : Spares cfg s (.retract id)) :
    Calm True (HandledAt cfg numPages size id (fun req' => req'.phase = .waiting ∧
      req'.mambaLastTrackSeqlen = none) s) (step cfg s (.retract id)) := by
  rw [step]
  exact good.handle fun member =>
    retractReq_handled (good.sound_at member) (good.fits id member) spares

theorem arrive (id : Nat) (originInputIds : List Nat) (extraKey : Option String) :
    Calm True (fun s' => (∃ pages', s'.Good cfg numPages size pages') ∧ s'.live = id :: s.live ∧
        s'.reqs = Function.update s.reqs id { originInputIds, extraKey })
      (step cfg s (.arrive id originInputIds extraKey)) := by
  rw [step]
  refine (calm_check (by exact False.elim)).bind fun _ _ isNew => ?_
  exact ⟨⟨_, good.arrived (of_decide_eq_true isNew).1 ⟨rfl, rfl, rfl⟩ rfl⟩, rfl, rfl⟩

theorem matchPrefix (key : RadixKey) :
    Calm True (fun s' => (∃ pages', s'.Good cfg numPages size pages') ∧ s'.live = s.live ∧
        s'.reqs = s.reqs) (step cfg s (.matchPrefix key)) := by
  rw [step]
  refine (Cache.matchPrefix_turn good.sound key none).bind fun r _ ⟨tokens, taken, answer⟩ => ?_
  have turn := answer.turn
  rw [(answer.asked rfl).1] at turn
  exact ⟨⟨_, good.turned turn⟩, rfl, rfl⟩

theorem evict (numTokens mambaNum : Int) :
    Calm True (fun s' => (∃ pages', s'.Good cfg numPages size pages') ∧ s'.live = s.live ∧
        s'.reqs = s.reqs) (step cfg s (.evict numTokens mambaNum)) := by
  rw [step]
  exact (evict_turn good.sound numTokens mambaNum).bind fun _ _ turn =>
    ⟨⟨_, good.turned turn⟩, rfl, rfl⟩

theorem finish (id : Nat) (isInsert : Bool) (spares : Spares cfg s (.finish id isInsert)) :
    Calm (id ∈ s.live → (s.reqs id).phase = .running → isInsert = true →
        (s.reqs id).Recorded cfg ((s.reqs id).cacheCommitLen cfg))
      (fun s' => s'.Good cfg numPages size pages ∧ id ∈ s.live ∧ s'.live = s.live.erase id ∧
        s'.finished = id :: s.finished ∧ (∀ other, other ≠ id → s'.reqs other = s.reqs other) ∧
        (((s.reqs id).phase = .running → cfg.enableMambaExtraBuffer = false ∧
          (cfg.disable = false → isInsert = true → s.cache.tree.HasState (s.reqs id).extraKey
            ((s.reqs id).allIds.take ((s.reqs id).cacheCommitLen cfg)))) →
          (s'.reqs id).slotsOwned = [])) (step cfg s (.finish id isInsert)) := by
  rw [step]
  refine (handle_ends fun member => Calm.imp (release_turn (good.sound_at member)
    (good.fits id member) spares) fun recorded => recorded member).bind fun s₁ _
    ⟨member, r, ⟨turn, cleared⟩, isNext⟩ => ?_
  subst isNext
  refine ⟨good.released member turn _, member, rfl, rfl,
    fun other different => update_of_ne different .., ?_⟩
  dsimp only
  rw [update_self]
  exact cleared

end

end Good

theorem step_good {event : Event} (good : s.Good cfg numPages size pages)
    (spares : Spares cfg s event) (ran : step cfg s event = .ok s') :
    ∃ pages', s'.Good cfg numPages size pages' := by
  cases event with
  | arrive id originInputIds extraKey =>
    exact ((good.arrive id originInputIds extraKey).yields ran).1
  | admitted id maxPrefixLen => exact ((good.admitted id maxPrefixLen).yields ran).good
  | turnedAway id maxPrefixLen => exact ((good.turnedAway id maxPrefixLen).yields ran).good
  | extend id extendInputLen => exact ((good.extend id extendInputLen).yields ran).good
  | decode id => exact ((good.decode id).yields ran).good
  | track id seqlen => exact ((good.track id seqlen).yields ran).good
  | output id token reasoning => exact ((good.output id token reasoning).yields ran).good
  | cacheUnfinished id => exact ((good.cacheUnfinished id).yields ran).good
  | finish id isInsert => exact ⟨pages, ((good.finish id isInsert spares).yields ran).1⟩
  | retract id => exact ((good.retract id spares).yields ran).good
  | matchPrefix key => exact ((good.matchPrefix key).yields ran).1
  | evict numTokens mambaNum => exact ((good.evict numTokens mambaNum).yields ran).1

theorem run_good {events : List Event} (ran : run (step cfg) (reset numPages size) events = .ok s)
    (spares : Admissible (step cfg) (Spares cfg) (reset numPages size) events) :
    ∃ pages, s.Good cfg numPages size pages := by
  refine run_invariant (fun s event s' (good : ∃ pages, s.Good cfg numPages size pages) spares
    stepped => ?_) events _ s ⟨_, reset_good⟩ spares ran
  obtain ⟨pages, good⟩ := good
  exact step_good good spares stepped

/-! ### Indices -/

theorem count_range' (k n : Nat) :
    (List.range' 1 n).count k = if 1 ≤ k ∧ k ≤ n then 1 else 0 := by
  rw [List.Nodup.count nodup_range']
  congr 1
  rw [mem_range'_1, eq_iff_iff]
  omega

/-- The number of live requests with an index of the page of `i` beyond their protected
    length. -/
def pageOwners (cfg : ServerConfig) (s : Engine) (i : Nat) : Nat :=
  tally s.live fun id =>
    if i / cfg.pageSize ∈ (s.reqs id).kvOwned.map (· / cfg.pageSize) then 1 else 0

theorem Good.pageOwners (good : s.Good cfg numPages size pages) (i : Nat) :
    s.pageOwners cfg i = tally s.live fun id => (pages id).count (i / cfg.pageSize) := by
  apply tally_congr
  intro id member
  have laid := (good.fits id member).laid
  simp only [laid.distinct.count, laid.mem_iff cfg.positive]

/-- Every index of a managed page is in exactly one place: free, in one node of the tree, or in
    a page of one live request; and the request has each of its indices once. -/
theorem kv_indices_conserved (cfg : ServerConfig) (numPages size : Nat) (events : List Event)
    (s : Engine) (spares : Admissible (step cfg) (Spares cfg) (reset numPages size) events)
    (ran : run (step cfg) (reset numPages size) events = .ok s) :
    (∀ i, s.cache.freePages.count (i / cfg.pageSize) + s.cache.tree.sum (Tree.countIndex i) +
        s.pageOwners cfg i =
      if 1 ≤ i / cfg.pageSize ∧ i / cfg.pageSize ≤ numPages then 1 else 0) ∧
    ∀ id ∈ s.live, (s.reqs id).kvOwned.Nodup := by
  obtain ⟨pages, good⟩ := run_good ran spares
  refine ⟨fun i => ?_, fun id member => (good.fits id member).laid.nodup cfg.positive⟩
  rw [good.pageOwners, ← count_range']
  exact good.kv i

/-- A request whose only token fills half of a page. -/
def halfPage : List Event :=
  [.arrive 0 [1] none, .admitted 0 0, .extend 0 1]

theorem paged_single : true = false → 2 = 1 := by simp

theorem unpaged_single (buffered : Bool) : buffered = false → 1 = 1 :=
  fun _ => rfl

def pagedServer : ServerConfig where
  pageSize := 2
  enableMambaExtraBuffer := true
  positive := Nat.zero_lt_two
  single := paged_single

theorem kv_indices_conserved_halfPage :
    ∃ s, run (step pagedServer) (reset 4 8) halfPage = .ok s ∧ s.live = [0] ∧
      s.cache.freePages.count (3 / 2) + s.cache.tree.sum (Tree.countIndex 3) +
        s.pageOwners pagedServer 3 = 1 := by
  obtain ⟨s, reached, live⟩ : ∃ s, run (step pagedServer) (reset 4 8) halfPage = .ok s ∧
      s.live = [0] := by decide +kernel
  exact ⟨s, reached, live,
    (kv_indices_conserved pagedServer 4 8 halfPage s (by decide +kernel) reached).1 3⟩

/-- Single tokens; the tokens of a reasoning phase are not cached. -/
def strippingServer : ServerConfig where
  pageSize := 1
  enableMambaExtraBuffer := false
  positive := Nat.one_pos
  single := unpaged_single _
  stripThinkingCache := true

/-- A request that has been retracted while it was reasoning, and that then finds a prefix in
    the tree which goes beyond its prompt. -/
def retractedThinking : List Event :=
  [.arrive 0 [1] none, .admitted 0 0, .extend 0 1, .output 0 2 true, .decode 0, .output 0 3 false,
    .retract 0, .arrive 1 [1, 2] none, .admitted 1 1, .extend 1 2, .finish 1 true, .admitted 0 2,
    .extend 0 1, .finish 0 true]

/-- The places of an index, with the tables of the live requests. -/
def places (cfg : ServerConfig) (s : Engine) (i : Nat) : Nat :=
  s.cache.freePages.count (i / cfg.pageSize) + s.cache.tree.sum (Tree.countIndex i) +
    tally s.live fun id => (s.reqs id).kvOwned.count i

theorem kv_index_in_no_place :
    (∃ s, run (step pagedServer) (reset 4 8) halfPage = .ok s ∧ places pagedServer s 3 = 0) ∧
    ∃ s, run (step strippingServer) (reset 8 8) retractedThinking = .ok s ∧
      ∃ i, places strippingServer s i = 2 := by
  constructor
  · decide +kernel
  · obtain ⟨s, reached, twice⟩ : ∃ s,
        run (step strippingServer) (reset 8 8) retractedThinking = .ok s ∧
          places strippingServer s 4 = 2 := by decide +kernel
    exact ⟨s, reached, 4, twice⟩

/-! ### Slots -/

/-- A request with a row finishes without the extra buffer, and its own slot is not given to the
    tree, which has a state for its tokens. -/
def Clears (cfg : ServerConfig) (s : Engine) : Event → Prop
  | .finish id isInsert => (s.reqs id).phase = .running → cfg.enableMambaExtraBuffer = false ∧
    (cfg.disable = false → isInsert = true → s.cache.tree.HasState (s.reqs id).extraKey
      ((s.reqs id).allIds.take ((s.reqs id).cacheCommitLen cfg)))
  | _ => True

def Cleared (s : Engine) : Prop :=
  ∀ id ∈ s.finished, id ∉ s.live ∧ (s.reqs id).slotsOwned = []

theorem Cleared.handle (cleared : s.Cleared) (member : id ∈ s.live) :
    Cleared { s with cache := c', reqs := Function.update s.reqs id req' } := by
  intro other isFinished
  obtain ⟨notLive, nothing⟩ := cleared other isFinished
  refine ⟨notLive, ?_⟩
  have different : other ≠ id := fun same => notLive (same ▸ member)
  dsimp only
  rw [update_of_ne different]
  exact nothing

theorem step_cleared {event : Event} (good : s.Good cfg numPages size pages) (cleared : s.Cleared)
    (spares : Spares cfg s event) (clears : Clears cfg s event)
    (ran : step cfg s event = .ok s') : s'.Cleared := by
  cases event with
  | arrive id originInputIds extraKey =>
    obtain ⟨isNew, isNext⟩ := check_bind_ok ran
    cases isNext
    intro other isFinished
    obtain ⟨notLive, nothing⟩ := cleared other isFinished
    -- the id of a finished request is not used again
    have different : other ≠ id :=
      fun same => (of_decide_eq_true isNew).2 (same ▸ isFinished)
    refine ⟨not_mem_cons_of_ne_of_not_mem different notLive, ?_⟩
    dsimp only
    rw [update_of_ne different]
    exact nothing
  | finish id isInsert =>
    obtain ⟨-, member, isLive, isFinished, others, nothing⟩ :=
      (good.finish id isInsert spares).yields ran
    intro other finished
    rw [isLive]
    rw [isFinished] at finished
    rcases mem_cons.mp finished with rfl | earlier
    · exact ⟨good.distinct.not_mem_erase, nothing clears⟩
    · obtain ⟨notLive, nothing⟩ := cleared other earlier
      rw [others other fun same => notLive (same ▸ member)]
      exact ⟨fun isLive => notLive (mem_of_mem_erase isLive), nothing⟩
  | admitted | turnedAway | extend | decode | track | output | cacheUnfinished | retract =>
    rw [step] at ran
    obtain ⟨member, req', c', -, rfl⟩ := handle_ok ran
    exact cleared.handle member
  | matchPrefix key =>
    obtain ⟨x, -, isNext⟩ := bind_ok ran
    cases isNext
    exact cleared
  | evict numTokens mambaNum =>
    obtain ⟨c', -, isNext⟩ := bind_ok ran
    cases isNext
    exact cleared

/-- Every slot of the Mamba pool is in exactly one place: free, a state of one node of the tree,
    or of one request, as its own slot or in its ping-pong buffer; and a finished request has
    none. -/
theorem slots_of_requests_conserved (cfg : ServerConfig) (numPages size : Nat) (events : List Event)
    (s : Engine)
    (allowed : Admissible (step cfg) (fun s event => Spares cfg s event ∧ Clears cfg s event)
      (reset numPages size) events) (ran : run (step cfg) (reset numPages size) events = .ok s) :
    (∀ i, s.cache.freeSlots.count i + s.cache.tree.sum (Tree.countSlot i) +
        tally (s.live ++ s.finished) (fun id => (s.reqs id).slotsOwned.count i) =
      if 1 ≤ i ∧ i ≤ size then 1 else 0) ∧
    ∀ id ∈ s.finished, (s.reqs id).slotsOwned = [] := by
  have kept := run_invariant
    (fun s event s' (inv : (∃ pages, s.Good cfg numPages size pages) ∧ s.Cleared)
      (ok : Spares cfg s event ∧ Clears cfg s event) stepped => by
        obtain ⟨⟨pages, good⟩, cleared⟩ := inv
        exact ⟨step_good good ok.1 stepped, step_cleared good cleared ok.1 ok.2 stepped⟩)
    events _ s ⟨⟨_, reset_good⟩, fun _ member => absurd member not_mem_nil⟩ allowed ran
  obtain ⟨⟨pages, good⟩, cleared⟩ := kept
  refine ⟨fun i => ?_, fun id member => (cleared id member).2⟩
  have nothing : tally s.finished (fun id => (s.reqs id).slotsOwned.count i) = 0 := by
    apply tally_eq_zero_iff.mpr
    intro id member
    rw [(cleared id member).2, count_nil]
  rw [tally_append, nothing, Nat.add_zero, ← count_range']
  exact good.slots i

/-- Single tokens without the extra buffer, and the same with it. -/
def plainServer : ServerConfig where
  pageSize := 1
  enableMambaExtraBuffer := false
  positive := Nat.one_pos
  single := unpaged_single _

def bufferedServer : ServerConfig where
  pageSize := 1
  enableMambaExtraBuffer := true
  positive := Nat.one_pos
  single := unpaged_single _

/-- A request that is dropped after its prefill. -/
def droppedReq : List Event :=
  [.arrive 0 [1, 2] none, .admitted 0 1, .extend 0 2, .finish 0 false]

theorem slots_of_requests_conserved_dropped :
    ∃ s, run (step plainServer) (reset 8 4) droppedReq = .ok s ∧ s.finished = [0] ∧
      (∀ i, s.cache.freeSlots.count i + s.cache.tree.sum (Tree.countSlot i) +
          tally (s.live ++ s.finished) (fun id => (s.reqs id).slotsOwned.count i) =
        if 1 ≤ i ∧ i ≤ 4 then 1 else 0) ∧
      ∀ id ∈ s.finished, (s.reqs id).slotsOwned = [] := by
  obtain ⟨s, reached, finished⟩ : ∃ s, run (step plainServer) (reset 8 4) droppedReq = .ok s ∧
      s.finished = [0] := by decide +kernel
  have steps : Admissible (step plainServer)
      (fun s event => Spares plainServer s event ∧ event ∈ droppedReq) (reset 8 4) droppedReq := by
    decide +kernel
  refine ⟨s, reached, finished, slots_of_requests_conserved plainServer 8 4 droppedReq s
    (steps.mono fun s event ⟨spares, isStep⟩ => ⟨spares, ?_⟩) reached⟩
  rw [droppedReq] at isStep
  simp only [mem_cons, not_mem_nil, or_false] at isStep
  rcases isStep with rfl | rfl | rfl | rfl
  · trivial
  · trivial
  · trivial
  · exact fun _ => ⟨rfl, nofun⟩

/-- A request that finishes and leaves its state in the tree. -/
def finishedReq : List Event :=
  [.arrive 0 [1, 2] none, .admitted 0 1, .extend 0 2, .finish 0 true]

/-- The slot that the tree has got is still the slot of the finished request; with the extra
    buffer, the freed slots of its ping-pong buffer are still in it. -/
theorem slot_of_finished_request :
    (∃ s, run (step plainServer) (reset 8 4) finishedReq = .ok s ∧ s.finished = [0] ∧
      ∃ slot, (s.reqs 0).mambaPoolIdx = some slot ∧ s.cache.tree.sum (Tree.countSlot slot) = 1) ∧
    ∃ s, run (step bufferedServer) (reset 8 4) droppedReq = .ok s ∧ s.finished = [0] ∧
      ∃ slot, slot ∈ (s.reqs 0).slotsOwned ∧ slot ∈ s.cache.freeSlots := by
  constructor
  · decide +kernel
  · decide +kernel

end Engine

end Engram.Radix
