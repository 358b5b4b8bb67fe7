import Engram.Radix.Chunks
import Engram.Radix.Conservation

/-!
# Consistency of tracked positions

Every position that a chunk records ends with a page, as long as every chunk starts with one
(`tracking_consistent`). `add_one_req` cuts the first chunk at a page, and `add_chunked_req` cuts
the later ones wherever the budget ends.
-/

namespace Engram.Radix

open Lib Lib.Transition List Function

/-! ### Chunks -/

namespace TrackingConfig.Accepted

variable {cfg : TrackingConfig}

theorem dvd_chunkSize (accepted : cfg.Accepted) :
    flaChunkSize ∣ cfg.mambaCacheChunkSize ∧ cfg.pageSize ∣ cfg.mambaCacheChunkSize := by
  have divides := Nat.dvd_of_mod_eq_zero accepted.pages
  rw [accepted.chunkSize]
  rcases Nat.le_total flaChunkSize cfg.pageSize with smaller | larger
  · rw [Nat.max_eq_right smaller, Nat.min_eq_left smaller] at divides
    rw [Nat.max_eq_right smaller]
    exact ⟨divides, Nat.dvd_refl _⟩
  · rw [Nat.max_eq_left larger, Nat.min_eq_right larger] at divides
    rw [Nat.max_eq_left larger]
    exact ⟨Nat.dvd_refl _, divides⟩

theorem chunkSize_pos (accepted : cfg.Accepted) : 0 < cfg.mambaCacheChunkSize := by
  rw [accepted.chunkSize]
  exact Nat.lt_of_lt_of_le (by decide : 0 < flaChunkSize) (Nat.le_max_left ..)

end TrackingConfig.Accepted

variable {prefixLen extendInputLen : Nat}

theorem dvd_of_truncate {pageSize remChunkTokens truncLen : Nat} {size : Option Nat}
    (chosen : truncate pageSize prefixLen remChunkTokens size = some truncLen) :
    pageSize ∣ prefixLen + truncLen := by
  rw [truncate] at chosen
  split at chosen
  · cases chosen
  obtain ⟨aligned, -, chosen⟩ := Option.bind_eq_some_iff.mp chosen
  dsimp only at chosen
  split at chosen
  · cases chosen
  · next longer =>
    cases chosen
    rw [Nat.add_sub_cancel' (Nat.le_of_not_le longer)]
    exact Nat.dvd_mul_left ..

theorem addOneReqLen_cases {pageSize rest : Nat} {isChunked : Bool}
    {remChunkTokens size : Option Nat}
    (chosen : addOneReqLen pageSize prefixLen rest remChunkTokens size =
      some (extendInputLen, isChunked)) :
    (isChunked = false ∧ extendInputLen = rest) ∨
      (isChunked = true ∧ pageSize ∣ prefixLen + extendInputLen) := by
  rw [addOneReqLen.eq_def] at chosen
  split at chosen
  · cases chosen
    exact .inl ⟨rfl, rfl⟩
  split at chosen
  · cases chosen
    exact .inl ⟨rfl, rfl⟩
  · obtain ⟨truncLen, truncated, isNext⟩ := Option.bind_eq_some_iff.mp chosen
    cases isNext
    exact .inr ⟨rfl, dvd_of_truncate truncated⟩

/-- The position is in the chunk and ends with a page. -/
structure Inside (cfg : TrackingConfig) (prefixLen extendInputLen t : Nat) : Prop where
  after : prefixLen < t
  within : t ≤ prefixLen + extendInputLen
  aligned : cfg.pageSize ∣ t

/-- The assertions. -/
def Fault.Asserted : Fault → Prop
  | .forceTrackH _ => True
  | .cache failure => failure.OfCaching
  | .notAdded => False

theorem forceTrackH_eq {i : Nat} (divides : flaChunkSize ∣ i) : forceTrackH i = .ok (i + 1) :=
  if_pos (Nat.mod_eq_zero_of_dvd divides)

section Track

variable {cfg : TrackingConfig} {prefixLen extendInputLen : Nat}

theorem trackEnd_ends (accepted : cfg.Accepted) (aligned : cfg.pageSize ∣ prefixLen)
    (long : cfg.mambaCacheChunkSize ≤ extendInputLen) :
    ∃ trackSeqlen t, trackEnd cfg prefixLen extendInputLen = .ok (trackSeqlen, t) ∧
      Inside cfg prefixLen extendInputLen t ∧ trackSeqlen ≤ prefixLen + extendInputLen + 1 := by
  obtain ⟨fla, page⟩ := accepted.dvd_chunkSize
  have positive := accepted.chunkSize_pos
  have one := Nat.div_pos long positive
  have floor := Nat.div_mul_le_self extendInputLen cfg.mambaCacheChunkSize
  have more := Nat.le_mul_of_pos_left cfg.mambaCacheChunkSize one
  have inside : Inside cfg prefixLen extendInputLen
      (prefixLen + extendInputLen / cfg.mambaCacheChunkSize * cfg.mambaCacheChunkSize) :=
    ⟨by omega, by omega, Nat.dvd_add aligned (Nat.dvd_mul_left_of_dvd page _)⟩
  rw [trackEnd]
  split
  · next different =>
    -- the chunk size is not `FLA_CHUNK_SIZE`, so it is a page, and the prefix ends with one
    have isPage : cfg.mambaCacheChunkSize = cfg.pageSize := by
      have := accepted.chunkSize
      grind
    have divides : flaChunkSize ∣ prefixLen +
        extendInputLen / cfg.mambaCacheChunkSize * cfg.mambaCacheChunkSize := by
      rw [isPage] at fla ⊢
      exact Nat.dvd_add (fla.trans aligned) (Nat.dvd_mul_left_of_dvd fla _)
    rw [forceTrackH_eq divides]
    exact ⟨_, _, rfl, inside, Nat.succ_le_succ inside.within⟩
  · exact ⟨_, _, rfl, inside, Nat.le_succ _⟩

theorem trackBranching_ends (accepted : cfg.Accepted) {trackSeqlen t : Nat}
    (inside : Inside cfg prefixLen extendInputLen t)
    (bounded : trackSeqlen ≤ prefixLen + extendInputLen + 1) {branching : Option Nat}
    (multiple : ∀ b, branching = some b → cfg.mambaCacheChunkSize ∣ b) :
    ∃ trackSeqlen' t', trackBranching cfg prefixLen (trackSeqlen, t) branching =
      .ok (trackSeqlen', t') ∧ Inside cfg prefixLen extendInputLen t' := by
  obtain ⟨fla, page⟩ := accepted.dvd_chunkSize
  cases branching with
  | none => exact ⟨_, _, rfl, inside⟩
  | some b =>
    rw [trackBranching]
    split
    · next branches =>
      obtain ⟨-, after, before⟩ := branches
      have divides := multiple b rfl
      rw [forceTrackH_eq (fla.trans divides)]
      refine ⟨_, _, rfl, after, ?_, page.trans divides⟩
      omega
    · exact ⟨_, _, rfl, inside⟩

theorem trackExtend_ends (accepted : cfg.Accepted) {req : Req}
    (aligned : cfg.pageSize ∣ req.prefixIndices.length) {branching : Option Nat}
    (multiple : ∀ b, branching = some b → cfg.mambaCacheChunkSize ∣ b) :
    Ends (fun fault => ¬ fault.Asserted)
      (fun entry => ∀ t, entry.mambaLastTrackSeqlen = some t →
        Inside cfg req.prefixIndices.length extendInputLen t)
      (trackExtend cfg req extendInputLen branching) := by
  rw [trackExtend]
  split
  · exact fun ofCaching => ofCaching
  split
  · next long =>
    obtain ⟨trackSeqlen, t, ran, inside, bounded⟩ := trackEnd_ends accepted aligned long
    obtain ⟨trackSeqlen', t', ran', inside'⟩ :=
      trackBranching_ends accepted inside bounded multiple
    simp only [ran, ran', bind, Except.bind]
    intro recorded isLast
    cases isLast
    exact inside'
  · exact nofun

end Track

theorem Cache.dvd_branching {cfg : CacheConfig} {c c' : Cache} {key : RadixKey}
    {cow : Option (Option Nat)} {result : MatchResult}
    (ran : c.matchPrefix cfg key cow = .ok (result, c')) {b : Nat}
    (isBranching : result.mambaBranchingSeqlen = some b) : cfg.mambaCacheChunkSize ∣ b := by
  have multiple : ∀ found, branchingSeqlen cfg found = some b → cfg.mambaCacheChunkSize ∣ b := by
    intro found isSome
    rw [branchingSeqlen] at isSome
    split at isSome
    · dsimp only at isSome
      split at isSome
      · cases isSome
        exact Nat.dvd_mul_left ..
      · cases isSome
    · cases isSome
  rw [matchPrefix] at ran
  split at ran
  · cases ran
    cases isBranching
  obtain ⟨⟨found, tree⟩, -, ran⟩ := bind_ok ran
  obtain ⟨t₁, -, ran⟩ := bind_ok ran
  obtain ⟨t₂, -, ran⟩ := bind_ok ran
  dsimp only at ran
  split at ran
  · obtain ⟨x, -, isNext⟩ := bind_ok ran
    cases isNext
    exact multiple found isBranching
  · cases ran
    exact multiple found isBranching
  · cases ran
    exact multiple found isBranching

/-! ### The invariant -/

/-- What is recorded for a request, and how far it has come. -/
structure Req.Tracked (cfg : TrackingConfig) (stage : Stage) (req : Req) : Prop where
  idle : req.phase ≠ .running → req.mambaLastTrackSeqlen = none
  last : ∀ t, req.mambaLastTrackSeqlen = some t → cfg.pageSize ∣ t ∧ t ≤ req.kvCommittedLen ∧
    (stage ≠ .decoding → req.Caches cfg.toServerConfig t)
  chunked : req.phase = .running → stage = .chunked → cfg.pageSize ∣ req.fillIds.length
  prefilled : req.phase = .running → stage = .prefilled →
    req.allIds.length ≤ req.kvCommittedLen
  decoding : req.phase = .running → stage = .decoding →
    req.allIds.length ≤ req.kvCommittedLen + 1

/-- A position that a chunk has recorded is in it and ends with a page. -/
def Chunk.Consistent (cfg : TrackingConfig) (chunk : Chunk) : Prop :=
  ∀ t, chunk.mambaLastTrackSeqlen = some t → Inside cfg chunk.prefixLen chunk.extendInputLen t

namespace Serving

/-- The invariant, but for the request `busy` that is handled. -/
structure Inv (cfg : TrackingConfig) (numPages size : Nat) (busy : Option Nat) (s : Serving) :
    Prop where
  good : ∃ pages, s.engine.Good cfg.toServerConfig numPages size pages
  tracked : ∀ id ∈ s.engine.live, some id ≠ busy → (s.engine.reqs id).Tracked cfg (s.stage id)
  branching : ∀ id b, s.mambaBranchingSeqlen id = some b → cfg.mambaCacheChunkSize ∣ b
  chunks : ∀ chunk ∈ s.chunks, chunk.Consistent cfg

variable {cfg : TrackingConfig} {numPages size : Nat} {busy : Option Nat} {s s' : Serving}
  {id : Nat} {event : Event}

theorem reset_inv : (reset numPages size).Inv cfg numPages size none where
  good := ⟨_, Engine.reset_good⟩
  tracked := fun _ member => absurd member not_mem_nil
  branching := nofun
  chunks := fun _ member => absurd member not_mem_nil

/-- A computation that stops with none of the assertions. -/
abbrev Calmly {α : Type} (Q : α → Prop) (result : Except Fault α) : Prop :=
  Ends (fun fault => ¬ fault.Asserted) Q result

namespace Inv

theorem weaken (inv : s.Inv cfg numPages size none) : s.Inv cfg numPages size busy :=
  { inv with tracked := fun id member _ => inv.tracked id member nofun }

theorem handled (inv : s.Inv cfg numPages size (some id)) {stage : Stage}
    (tracked : id ∈ s.engine.live → (s.engine.reqs id).Tracked cfg stage) :
    (s.setStage id stage).Inv cfg numPages size none where
  good := inv.good
  tracked := by
    intro other member _
    by_cases same : other = id
    · subst same
      dsimp only [setStage]
      rw [update_self]
      exact tracked member
    · dsimp only [setStage]
      rw [update_of_ne same]
      exact inv.tracked other member fun isBusy => same (Option.some.inj isBusy)
  branching := inv.branching
  chunks := inv.chunks

theorem handled_here (inv : s.Inv cfg numPages size (some id))
    (tracked : id ∈ s.engine.live → (s.engine.reqs id).Tracked cfg (s.stage id)) :
    s.Inv cfg numPages size none := by
  have same := inv.handled tracked
  rw [setStage, update_eq_self] at same
  exact same

theorem pushChunk {chunk : Chunk} (inv : s.Inv cfg numPages size busy)
    (consistent : chunk.Consistent cfg) :
    Inv cfg numPages size busy { s with chunks := chunk :: s.chunks } where
  good := inv.good
  tracked := inv.tracked
  branching := inv.branching
  chunks := by
    intro other member
    rcases mem_cons.mp member with rfl | earlier
    · exact consistent
    · exact inv.chunks other earlier

end Inv

/-! ### Steps of the engine -/

/-- One request has been handled. -/
structure Applied (cfg : TrackingConfig) (numPages size id : Nat) (R : Req → Prop)
    (s s' : Serving) : Prop where
  inv : s'.Inv cfg numPages size (some id)
  stage : s'.stage = s.stage
  member : id ∈ s.engine.live
  live : s'.engine.live = s.engine.live
  holds : R (s'.engine.reqs id)

theorem apply_ends {Q : Serving → Prop} {busy : Option Nat} (inv : s.Inv cfg numPages size busy)
    (calm : ∀ {pages}, s.engine.Good cfg.toServerConfig numPages size pages →
      Calm True (fun engine => Q { s with engine }) (s.engine.step cfg.toServerConfig event)) :
    Calmly Q (s.apply cfg event) := by
  obtain ⟨pages, good⟩ := inv.good
  have ends := calm good
  rw [apply]
  cases stepped : s.engine.step cfg.toServerConfig event with
  | error failure =>
    rw [stepped] at ends
    exact fun asserted => ends asserted trivial
  | ok engine =>
    rw [stepped] at ends
    exact ends

theorem apply_handled {R : Req → Prop} (inv : s.Inv cfg numPages size (some id))
    (calm : ∀ {pages}, s.engine.Good cfg.toServerConfig numPages size pages →
      Calm True (Engine.HandledAt cfg.toServerConfig numPages size id R s.engine)
        (s.engine.step cfg.toServerConfig event)) :
    Calmly (Applied cfg numPages size id R s) (s.apply cfg event) := by
  refine apply_ends inv fun good => (calm good).mono ?_
  rintro engine ⟨good', member, live, others, holds⟩
  refine ⟨⟨good', fun other isLive different => ?_, inv.branching, inv.chunks⟩, rfl, member, live,
    holds⟩
  -- the other requests are as they were
  rw [live] at isLive
  rw [others other fun same => different (congrArg some same)]
  exact inv.tracked other isLive different

theorem apply_calmly (inv : s.Inv cfg numPages size none)
    (calm : ∀ {pages}, s.engine.Good cfg.toServerConfig numPages size pages →
      Calm True (fun engine => (∃ pages', engine.Good cfg.toServerConfig numPages size pages') ∧
        ∀ id ∈ engine.live, (engine.reqs id).Tracked cfg (s.stage id))
        (s.engine.step cfg.toServerConfig event)) :
    Calmly (fun s' => s'.Inv cfg numPages size none) (s.apply cfg event) :=
  apply_ends inv fun good => (calm good).mono fun _ kept =>
    ⟨kept.1, fun id member _ => kept.2 id member, inv.branching, inv.chunks⟩

/-! ### Chunks -/

theorem tracked_of_chunk {req : Req} {stage : Stage} (phase : req.phase = .running)
    (recorded : ∀ t, req.mambaLastTrackSeqlen = some t → Inside cfg prefixLen extendInputLen t)
    (covered : req.cacheProtectedLen ≤ prefixLen)
    (filled : req.fillIds.length = prefixLen + extendInputLen)
    (committed : req.kvCommittedLen = prefixLen + extendInputLen)
    (cut : stage = .chunked → cfg.pageSize ∣ prefixLen + extendInputLen)
    (whole : stage = .prefilled → req.allIds.length ≤ prefixLen + extendInputLen)
    (early : stage ≠ .decoding) : req.Tracked cfg stage where
  idle := fun notRunning => absurd phase notRunning
  last := by
    intro t isLast
    have inside := recorded t isLast
    have after := inside.after
    have within := inside.within
    exact ⟨inside.aligned, by omega, fun _ => ⟨inside.aligned, by omega, by omega⟩⟩
  chunked := fun _ isChunked => filled ▸ cut isChunked
  prefilled := fun _ isPrefilled => committed ▸ whole isPrefilled
  decoding := fun _ isDecoding => absurd isDecoding early

theorem extend_calmly (accepted : cfg.Accepted) {stage : Stage}
    (inv : s.Inv cfg numPages size (some id))
    (aligned : cfg.pageSize ∣ (s.engine.reqs id).prefixIndices.length)
    (unrecorded : (s.engine.reqs id).mambaLastTrackSeqlen = none) (cut : stage = .chunked →
      cfg.pageSize ∣ (s.engine.reqs id).prefixIndices.length + extendInputLen)
    (whole : stage = .prefilled → (s.engine.reqs id).allIds.length ≤
      (s.engine.reqs id).prefixIndices.length + extendInputLen) (early : stage ≠ .decoding) :
    Calmly (fun s' => s'.Inv cfg numPages size none) (s.extend cfg id extendInputLen stage) := by
  rw [extend]
  refine (apply_handled inv fun good => good.extend id extendInputLen).bind ?_
  rintro s₁ - ⟨inv₁, -, member, -, extended⟩
  have covered : (s.engine.reqs id).cacheProtectedLen ≤
      (s.engine.reqs id).prefixIndices.length := by
    obtain ⟨pages, good⟩ := inv.good
    exact ((good.fits id member).ready extended.extendable).covered
  have filled := extended.filled
  have committed := extended.committed
  rw [← extended.prefixIndices] at aligned cut whole covered filled committed
  rw [← extended.allIds] at whole
  rw [← extended.protectedLen] at covered
  rw [← extended.last] at unrecorded
  have phase := extended.phase
  -- the position that the chunk records, if any
  refine (trackExtend_ends accepted aligned (inv₁.branching id)).bind fun entry _ inside => ?_
  cases isEntry : entry.mambaLastTrackSeqlen with
  | none =>
    refine (inv₁.handled fun _ => tracked_of_chunk phase (fun t isLast => ?_) covered filled
      committed cut whole early).pushChunk nofun
    rw [unrecorded] at isLast
    cases isLast
  | some t =>
    rw [isEntry] at inside
    refine (apply_handled inv₁ fun good => good.track id t).bind ?_
    rintro s₂ - ⟨inv₂, -, -, -, next, last, isReq, isLast⟩
    refine (inv₂.handled fun _ => ?_).pushChunk inside
    rw [isReq]
    refine tracked_of_chunk phase (fun t' isRecorded => ?_) covered filled committed cut whole early
    rcases isLast with rfl | rfl
    · exact inside t' isRecorded
    · rw [unrecorded] at isRecorded
      cases isRecorded

/-! ### The steps -/

/-- The condition: `add_chunked_req` cuts a chunk at a page. With `strip_thinking_cache`, what is
    protected and what is recorded is within the length that is left. -/
def CutsAtPage (cfg : TrackingConfig) (s : Serving) : Task → Prop
  | .nextChunk id remChunkTokens remTotalTokens =>
    (s.engine.reqs id).allIds.length - (s.engine.reqs id).fillIds.length ≤
        remTokens remChunkTokens remTotalTokens ∨
      cfg.pageSize ∣ remTokens remChunkTokens remTotalTokens
  | .finish id isInsert => cfg.stripThinkingCache = true → (s.engine.reqs id).phase = .running →
    (s.engine.reqs id).cacheProtectedLen ≤ (s.engine.reqs id).cacheCommitLen cfg.toServerConfig ∧
    (isInsert = true → ∀ t ∈ (s.engine.reqs id).mambaLastTrackSeqlen,
      t ≤ (s.engine.reqs id).cacheCommitLen cfg.toServerConfig)
  | .retract id => cfg.stripThinkingCache = true → (s.engine.reqs id).phase = .running →
    (s.engine.reqs id).cacheProtectedLen ≤ (s.engine.reqs id).cacheCommitLen cfg.toServerConfig
  | _ => True

theorem tracked_of_waiting {req : Req} (stage : Stage) (phase : req.phase ≠ .running)
    (unrecorded : req.mambaLastTrackSeqlen = none) : req.Tracked cfg stage where
  idle := fun _ => unrecorded
  last := by
    intro t isLast
    rw [unrecorded] at isLast
    cases isLast
  chunked := fun running => absurd running phase
  prefilled := fun running => absurd running phase
  decoding := fun running => absurd running phase

theorem expect_calmly (condition : Bool) :
    Calmly (fun _ => condition = true) (expect condition) := by
  cases condition with
  | true => rfl
  | false => exact fun ofCaching => ofCaching

/-- The match for a request that is added gives its branching point. -/
theorem Inv.branchesAt (inv : s.Inv cfg numPages size busy) {branching : Option Nat}
    (multiple : ∀ b, branching = some b → cfg.mambaCacheChunkSize ∣ b) :
    Inv cfg numPages size busy { s with
      mambaBranchingSeqlen := Function.update s.mambaBranchingSeqlen id branching } where
  good := inv.good
  tracked := inv.tracked
  branching := by
    intro other b isBranching
    dsimp only at isBranching
    by_cases same : other = id
    · subst same
      rw [update_self] at isBranching
      exact multiple b isBranching
    · rw [update_of_ne same] at isBranching
      exact inv.branching other b isBranching
  chunks := inv.chunks

theorem dvd_matchBranching {maxPrefixLen b : Nat}
    (isBranching : s.matchBranching cfg id maxPrefixLen = some b) :
    cfg.mambaCacheChunkSize ∣ b := by
  rw [matchBranching] at isBranching
  split at isBranching
  · next matched => exact Cache.dvd_branching matched isBranching
  · cases isBranching

section

variable (accepted : cfg.Accepted)

include accepted

theorem firstChunk_calmly (inv : s.Inv cfg numPages size none)
    (id maxPrefixLen : Nat) (remChunkTokens truncationAlignSize : Option Nat) :
    Calmly (fun s' => s'.Inv cfg numPages size none)
      (s.step cfg (.firstChunk id maxPrefixLen remChunkTokens truncationAlignSize)) := by
  rw [step]
  refine (apply_handled inv.weaken fun good => good.admitted id maxPrefixLen).bind ?_
  rintro s₁ - ⟨inv₁, -, member, live, waiting, phase, sameLast⟩
  have inv₂ : Inv cfg numPages size (some id) { s₁ with
      mambaBranchingSeqlen :=
        update s₁.mambaBranchingSeqlen id (s.matchBranching cfg id maxPrefixLen) } :=
    inv₁.branchesAt fun _ => dvd_matchBranching
  -- the matched prefix is a path of the tree
  have aligned : cfg.pageSize ∣ (s₁.engine.reqs id).prefixIndices.length := by
    obtain ⟨pages, good⟩ := inv₁.good
    have joins := (good.fits id (live ▸ member)).joins phase
    rw [joins.prefixLen]
    exact joins.follows.aligned (good.sound.paged.aligned good.sound.inv.shape)
  have unrecorded : (s₁.engine.reqs id).mambaLastTrackSeqlen = none := by
    rw [sameLast]
    exact (inv.tracked id member nofun).idle (by rw [waiting]; nofun)
  dsimp only
  split
  · exact fun ofCaching => ofCaching
  · next extendInputLen isChunked chosen =>
    rcases addOneReqLen_cases chosen with ⟨rfl, rfl⟩ | ⟨rfl, cut⟩
    · refine extend_calmly accepted inv₂ aligned unrecorded nofun (fun _ => ?_) nofun
      rw [restLen]
      omega
    · exact extend_calmly accepted inv₂ aligned unrecorded (fun _ => cut) nofun nofun

theorem nextChunk_calmly (inv : s.Inv cfg numPages size none) {id remChunkTokens : Nat}
    {remTotalTokens : Int} (cuts : s.CutsAtPage cfg (.nextChunk id remChunkTokens remTotalTokens)) :
    Calmly (fun s' => s'.Inv cfg numPages size none)
      (s.step cfg (.nextChunk id remChunkTokens remTotalTokens)) := by
  rw [step]
  refine (expect_calmly _).bind fun _ _ isStage => ?_
  have stage := of_decide_eq_true isStage
  have caches : id ∈ s.engine.live → ∀ t, (s.engine.reqs id).mambaLastTrackSeqlen = some t →
      (s.engine.reqs id).Caches cfg.toServerConfig t :=
    fun member t isLast => ((inv.tracked id member nofun).last t isLast).2.2 (by rw [stage]; nofun)
  refine (apply_handled inv.weaken fun good => Calm.imp (good.cacheUnfinished id)
    fun _ => ⟨accepted.extraBuffer, caches⟩).bind ?_
  rintro s₁ - ⟨inv₁, -, member, -, running, cached, unrecorded⟩
  have unrecorded := unrecorded accepted.enabled accepted.extraBuffer
  have prefixLen := cached.prefixLen
  have aligned : cfg.pageSize ∣ (s₁.engine.reqs id).prefixIndices.length := by
    rw [prefixLen]
    exact (inv.tracked id member nofun).chunked running stage
  have isRest : s₁.restLen id = (s.engine.reqs id).allIds.length -
      (s.engine.reqs id).fillIds.length := by
    rw [restLen, cached.allIds, prefixLen]
  dsimp only [addChunkedReqLen]
  by_cases truncated : remTokens remChunkTokens remTotalTokens < s₁.restLen id
  · rw [decide_eq_true truncated, Nat.min_eq_right truncated.le]
    refine extend_calmly accepted inv₁ aligned unrecorded (fun _ => ?_) nofun nofun
    rw [isRest] at truncated
    exact Nat.dvd_add aligned (cuts.resolve_left (Nat.not_le_of_lt truncated))
  · rw [decide_eq_false truncated, Nat.min_eq_left (Nat.le_of_not_lt truncated)]
    refine extend_calmly accepted inv₁ aligned unrecorded nofun (fun _ => ?_) nofun
    rw [restLen]
    omega

theorem prefillDone_calmly (inv : s.Inv cfg numPages size none)
    (id token : Nat) (reasoning : Bool) :
    Calmly (fun s' => s'.Inv cfg numPages size none)
      (s.step cfg (.prefillDone id token reasoning)) := by
  rw [step]
  refine (expect_calmly _).bind fun _ _ isStage => ?_
  have stage := of_decide_eq_true isStage
  refine (apply_handled inv.weaken fun good => good.output id token reasoning).bind ?_
  rintro s₁ - ⟨inv₁, -, member, -, reasoningTokens, isReq⟩
  have tracked := inv.tracked id member nofun
  have caches : id ∈ s₁.engine.live → ∀ t, (s₁.engine.reqs id).mambaLastTrackSeqlen = some t →
      (s₁.engine.reqs id).Caches cfg.toServerConfig t := by
    intro _ t isLast
    rw [isReq] at isLast ⊢
    have cached := (tracked.last t isLast).2.2 (by rw [stage]; nofun)
    exact ⟨cached.aligned, cached.later, cached.inside⟩
  refine (apply_handled inv₁ fun good => Calm.imp (good.cacheUnfinished id)
    fun _ => ⟨accepted.extraBuffer, caches⟩).bind ?_
  rintro s₂ - ⟨inv₂, -, -, -, running, cached, unrecorded⟩
  have unrecorded := unrecorded accepted.enabled accepted.extraBuffer
  refine inv₂.handled fun _ => ⟨fun _ => unrecorded, ?_, nofun, nofun, fun _ _ => ?_⟩
  · intro t isLast
    rw [unrecorded] at isLast
    cases isLast
  rw [cached.allIds, cached.committed]
  rw [isReq] at running ⊢
  have known := tracked.prefilled running stage
  rw [Req.allIds, ← append_assoc, length_append]
  exact Nat.succ_le_succ known

theorem decode_calmly (inv : s.Inv cfg numPages size none) (id token : Nat) (reasoning : Bool) :
    Calmly (fun s' => s'.Inv cfg numPages size none) (s.step cfg (.decode id token reasoning)) := by
  rw [step]
  refine (expect_calmly _).bind fun _ _ isStage => ?_
  have stage := of_decide_eq_true isStage
  refine (apply_handled inv.weaken fun good => good.decode id).bind ?_
  rintro s₁ - ⟨inv₁, sameStage₁, member, -, running, table, isReq₁⟩
  refine (apply_handled inv₁ fun good => good.output id token reasoning).bind ?_
  rintro s₂ - ⟨inv₂, sameStage₂, -, -, reasoningTokens, isReq₂⟩
  have tracked := inv.tracked id member nofun
  have isStage₂ : s₂.stage id = .decoding := by rw [sameStage₂, sameStage₁, stage]
  -- all tokens but the one that has just been sampled are committed
  have known : (s₂.engine.reqs id).allIds.length ≤ (s₂.engine.reqs id).kvCommittedLen + 1 := by
    have before := tracked.decoding running stage
    rw [isReq₂, isReq₁, Req.allIds]
    rw [← append_assoc, length_append]
    exact Nat.succ_le_succ before
  have sameLast : ∀ t, (s₂.engine.reqs id).mambaLastTrackSeqlen = some t →
      cfg.pageSize ∣ t ∧ t ≤ (s₂.engine.reqs id).kvCommittedLen := by
    intro t isLast
    rw [isReq₂, isReq₁] at isLast ⊢
    obtain ⟨aligned, committed, -⟩ := tracked.last t isLast
    exact ⟨aligned, committed.trans (Nat.le_succ _)⟩
  have phase : (s₂.engine.reqs id).phase = .running := by
    rw [isReq₂, isReq₁]
    exact running
  -- with the same position recorded, or another one that ends with a page
  have decoding : ∀ (req : Req) next last, req = { s₂.engine.reqs id with
      mambaNextTrackIdx := next, mambaLastTrackSeqlen := last } →
      (∀ t, last = some t → cfg.pageSize ∣ t ∧ t ≤ (s₂.engine.reqs id).kvCommittedLen) →
      req.Tracked cfg .decoding := by
    rintro req next last rfl allowed
    exact ⟨fun notRunning => absurd phase notRunning,
      fun t isLast => ⟨(allowed t isLast).1, (allowed t isLast).2, fun notDecoding =>
        absurd rfl notDecoding⟩, nofun, nofun, fun _ _ => known⟩
  dsimp only
  split
  · next atInterval =>
    refine (apply_handled inv₂ fun good => good.track id _).mono ?_
    rintro s₃ ⟨inv₃, sameStage₃, -, -, next, last, isReq₃, isLast⟩
    refine inv₃.handled_here fun _ => ?_
    rw [sameStage₃, isStage₂]
    refine decoding _ next last isReq₃ ?_
    rcases isLast with rfl | rfl
    · rintro t ⟨rfl⟩
      refine ⟨?_, by omega⟩
      exact (Nat.dvd_of_mod_eq_zero accepted.interval).trans (Nat.dvd_of_mod_eq_zero atInterval)
    · exact sameLast
  · refine inv₂.handled_here fun _ => ?_
    rw [isStage₂]
    exact decoding _ _ _ rfl sameLast

/-- A step keeps the invariant, and no assertion fails in it. -/
theorem step_calmly {task : Task} (inv : s.Inv cfg numPages size none)
    (cuts : s.CutsAtPage cfg task) :
    Calmly (fun s' => s'.Inv cfg numPages size none) (s.step cfg task) := by
  cases task with
  | firstChunk id maxPrefixLen remChunkTokens truncationAlignSize =>
    exact firstChunk_calmly accepted inv ..
  | nextChunk id remChunkTokens remTotalTokens => exact nextChunk_calmly accepted inv cuts
  | prefillDone id token reasoning => exact prefillDone_calmly accepted inv ..
  | decode id token reasoning => exact decode_calmly accepted inv ..
  | arrive id originInputIds extraKey =>
    rw [step]
    refine apply_calmly inv fun good => (good.arrive id originInputIds extraKey).mono ?_
    rintro engine ⟨good', live, reqs⟩
    refine ⟨good', fun other isLive => ?_⟩
    rw [reqs]
    by_cases same : other = id
    · subst same
      rw [update_self]
      exact tracked_of_waiting _ (by simp) rfl
    · rw [update_of_ne same]
      exact inv.tracked other (mem_of_ne_of_mem same (live ▸ isLive)) (by simp)
  | turnedAway id maxPrefixLen =>
    rw [step]
    refine (apply_handled inv.weaken fun good => good.turnedAway id maxPrefixLen).mono ?_
    rintro s' ⟨inv', -, member, -, waiting, phase, sameLast⟩
    refine inv'.handled_here fun _ => tracked_of_waiting _ (by simp [phase]) ?_
    rw [sameLast]
    exact (inv.tracked id member (by simp)).idle (by simp [waiting])
  | finish id isInsert =>
    rw [step]
    refine apply_calmly inv fun good => Calm.imp ((good.finish id isInsert
      fun strips running => (cuts strips running).1).mono ?_)
        fun _ member running inserts => ⟨accepted.extraBuffer, fun t isLast => ?_⟩
    · rintro engine ⟨good', member, live, _, others, _⟩
      refine ⟨⟨_, good'⟩, fun other isLive => ?_⟩
      rw [live] at isLive
      obtain ⟨different, stillLive⟩ := good.distinct.mem_erase_iff.mp isLive
      rw [others other different]
      exact inv.tracked other stillLive (by simp)
    -- what is recorded ends with a page of the committed tokens
    obtain ⟨aligned, committed, -⟩ := (inv.tracked id member (by simp)).last t isLast
    refine ⟨aligned, ?_⟩
    cases strips : cfg.stripThinkingCache with
    | true => exact (cuts strips running).2 inserts t isLast
    | false =>
      rw [Req.cacheCommitLen, strips]
      exact committed
  | retract id =>
    rw [step]
    refine (apply_handled inv.weaken fun good => good.retract id cuts).mono ?_
    rintro s' ⟨inv', -, -, -, phase, unrecorded⟩
    exact inv'.handled_here fun _ => tracked_of_waiting _ (by simp [phase]) unrecorded
  | matchPrefix key =>
    rw [step]
    refine apply_calmly inv fun good => (good.matchPrefix key).mono ?_
    rintro engine ⟨good', live, reqs⟩
    refine ⟨good', fun other isLive => ?_⟩
    rw [reqs]
    exact inv.tracked other (live ▸ isLive) (by simp)
  | evict numTokens mambaNum =>
    rw [step]
    refine apply_calmly inv fun good => (good.evict numTokens mambaNum).mono ?_
    rintro engine ⟨good', live, reqs⟩
    refine ⟨good', fun other isLive => ?_⟩
    rw [reqs]
    exact inv.tracked other (live ▸ isLive) (by simp)

end

/-! ### Runs -/

instance (cfg : TrackingConfig) (s : Serving) : ∀ task, Decidable (s.CutsAtPage cfg task)
  | .nextChunk .. => inferInstanceAs (Decidable (_ ∨ _))
  | .finish .. => inferInstanceAs (Decidable (_ → _ → _ ∧ (_ → ∀ t ∈ _, _)))
  | .retract _ => inferInstanceAs (Decidable (_ → _ → _))
  | .arrive .. | .turnedAway .. | .firstChunk .. | .prefillDone .. | .decode .. | .matchPrefix _
  | .evict .. => instDecidableTrue

/-- In every run whose chunks are cut at pages, no assertion about the cached length fails, and
    a chunk that is tracked records a position inside of it that ends with a page. -/
theorem tracking_consistent (cfg : TrackingConfig) (accepted : cfg.Accepted) (numPages size : Nat)
    (tasks : List Task)
    (cuts : Admissible (step cfg) (CutsAtPage cfg) (reset numPages size) tasks) :
    (∀ fault, fault.Asserted → run (step cfg) (reset numPages size) tasks ≠ .error fault) ∧
    ∀ s, run (step cfg) (reset numPages size) tasks = .ok s →
      ∀ chunk ∈ s.chunks, ∀ t, chunk.mambaLastTrackSeqlen = some t →
        chunk.prefixLen < t ∧ t ≤ chunk.prefixLen + chunk.extendInputLen ∧ cfg.pageSize ∣ t := by
  have kept : ∀ (s : Serving) (task : Task) (s' : Serving), s.Inv cfg numPages size none →
      s.CutsAtPage cfg task → s.step cfg task = .ok s' → s'.Inv cfg numPages size none :=
    fun s task s' inv allowed stepped => (step_calmly accepted inv allowed).yields stepped
  constructor
  · intro fault asserted
    refine run_never_faults kept (fun s task inv allowed faulted => ?_) tasks _ reset_inv cuts
    have calm := step_calmly accepted inv allowed
    rw [faulted] at calm
    exact calm asserted
  · intro s ran chunk member t isLast
    obtain ⟨after, within, aligned⟩ :=
      (run_invariant kept tasks _ s reset_inv cuts ran).chunks chunk member t isLast
    exact ⟨after, within, aligned⟩

/-- Pages of 64 tokens. -/
def pagedTracking : TrackingConfig where
  pageSize := 64
  enableMambaExtraBuffer := true
  positive := by decide
  single := fun off => Bool.noConfusion off

theorem pagedTracking_accepted : pagedTracking.Accepted where
  extraBuffer := rfl
  enabled := rfl
  pages := rfl
  chunkSize := rfl
  interval := rfl

/-- A prompt in three chunks, of which `add_chunked_req` cuts the second one at `remTotalTokens`. -/
def threeChunks (remTotalTokens : Int) : List Task :=
  [.arrive 0 (List.range 260) none, .firstChunk 0 259 (some 64) none,
    .nextChunk 0 128 remTotalTokens, .nextChunk 0 64 4096]

theorem tracking_consistent_threeChunks :
    ∃ s, run (step pagedTracking) (reset 8 8) (threeChunks 64) = .ok s ∧
      s.chunks.map (·.mambaLastTrackSeqlen) = [some 192, some 128, some 64] ∧
      ∀ chunk ∈ s.chunks, ∀ t, chunk.mambaLastTrackSeqlen = some t →
        chunk.prefixLen < t ∧ t ≤ chunk.prefixLen + chunk.extendInputLen ∧ 64 ∣ t := by
  obtain ⟨s, reached, tracked⟩ : ∃ s, run (step pagedTracking) (reset 8 8) (threeChunks 64) =
    .ok s ∧
      s.chunks.map (·.mambaLastTrackSeqlen) = [some 192, some 128, some 64] := by decide +kernel
  exact ⟨s, reached, tracked, (tracking_consistent pagedTracking
    pagedTracking_accepted 8 8 (threeChunks 64) (by decide +kernel)).2 s reached⟩

/-- Single tokens; the tokens of a reasoning phase are not cached. -/
def strippingTracking : TrackingConfig where
  pageSize := 1
  enableMambaExtraBuffer := true
  positive := Nat.one_pos
  single := Engine.unpaged_single _
  stripThinkingCache := true
  mambaTrackInterval := 1

/-- The budget cuts a chunk after one token of a page: the next one starts there and records a
    position inside of a page, and caching it fails. With `strip_thinking_cache`, a request that
    has recorded a position behind its prompt fails when it finishes. -/
theorem chunk_cut_inside_page :
    (∃ s, run (step pagedTracking) (reset 8 8) (threeChunks 65) = .ok s ∧
      ⟨0, 129, 64, some 193⟩ ∈ s.chunks) ∧
    run (step pagedTracking) (reset 8 8) (threeChunks 65 ++ [.nextChunk 0 64 4096]) =
      .error (.cache (.cacheLenUnaligned 193 192)) ∧
    run (step strippingTracking) (reset 8 8)
      [.arrive 0 [1, 2] none, .firstChunk 0 1 none none, .prefillDone 0 3 true, .decode 0 4 true,
        .finish 0 true] = .error (.cache (.cacheLenUnaligned 3 2)) := by
  refine ⟨?_, eq_error_of_faultOf (by decide +kernel), eq_error_of_faultOf (by decide +kernel)⟩
  decide +kernel

end Serving

end Engram.Radix
