import Engram.Recording.Life
import Engram.Snapshot.Retention

/-!
# The latest snapshot and the last one saved

Any number of requests, each with its own life, and the callback that stores a snapshot of one of
them and prunes the store. `get_latest_snapshot` and `prune_old_snapshots` order by turn number,
and the triggers pass token counts for it, so the latest snapshot is the last one saved only while
these counts do not fall (`latest_is_last_saved_while_growing`).
-/

namespace Engram.Recording

open Lib Lib.Transition Memory Scheduler Snapshot

variable {τ : Type}

structure HookConfig where
  baseDir : Path
  server : Server
  retention : SnapshotRetentionConfig := {}

structure Hooks (τ : Type) where
  disk : FileSystem (Content τ) := .empty
  lives : List (Life τ) := []
  /-- history: the snapshot of each conversation that was saved last -/
  saved : String → Option (StoredSnapshot τ) := fun _ => none

/-- The conversation the callback stores a request under. -/
def Life.conversation (life : Life τ) : String :=
  life.req.conversationId.getD life.req.rid

section Step

variable [DecidableEq τ] [Torch τ]

/-- The end of the callback. With the tier manager the state goes to host memory, and to
    disk where that fails; either way the conversation is pruned on disk. -/
def Hooks.store (cfg : HookConfig) (warm : Bool) (snapshot : StoredSnapshot τ) (s : Hooks τ) :
    Hooks τ :=
  let conversationId := snapshot.metadata.conversationId
  let saved := Function.update s.saved conversationId (some snapshot)
  if warm then
    let disk := (pruneOldSnapshots cfg.baseDir cfg.retention conversationId s.disk).2
    { s with disk, saved }
  else
    match saveSnapshot cfg.baseDir none snapshot.convStates snapshot.temporalStates
        snapshot.metadata s.disk with
    | (.error _, disk) => { s with disk }
    | (.ok _, disk) =>
      let disk := (pruneOldSnapshots cfg.baseDir cfg.retention conversationId disk).2
      { s with disk, saved }

inductive HookEvent (τ : Type) where
  | arrive (recv : GenerateReq) (uid : Nat) (pool : MambaPool τ)
  | forward (index : Nat) (event : Event)
  /-- the callback for a request of the batch; `warm` if the tier manager takes the state -/
  | hook (index : Nat) (now : Nat) (wanted warm : Bool)

def hookStep (cfg : HookConfig) (model : Model τ) (s : Hooks τ) :
    HookEvent τ → Except Disabled (Hooks τ)
  | .arrive recv uid pool => .ok { s with lives := s.lives ++ [{ req := recv.toReq uid, pool }] }
  | .forward index event =>
    match s.lives[index]? with
    | none => .error .disabled
    | some life =>
      match step model life event with
      | .error error => .error error
      | .ok life => .ok { s with lives := s.lives.set index life }
  | .hook index now wanted warm =>
    match s.lives[index]? with
    | none => .error .disabled
    | some life =>
      match postForwardSnapshot cfg.server now wanted life with
      | none => .ok s
      | some snapshot => .ok (s.store cfg warm snapshot)

end Step

/-- A callback that saves writes to disk, and the count it passes as turn number is not
    below a turn that the conversation has there. -/
def Growing (cfg : HookConfig) (s : Hooks τ) : HookEvent τ → Prop
  | .hook index _ wanted warm =>
    wanted = true → warm = false ∧ ∀ life, s.lives[index]? = some life →
      ∀ turn, HasSnapshot cfg.baseDir s.disk ⟨life.conversation, .turn turn⟩ →
        turn ≤ life.hookTurn
  | _ => True

/-- Pruning keeps at least one snapshot of a conversation. -/
def HookConfig.KeepsOne (cfg : HookConfig) : Prop :=
  1 ≤ cfg.retention.maxSnapshotsPerConversation ∨ cfg.retention.enableAutoPruning = false

/-- `get_latest_snapshot` returns the snapshot saved last, and it loads, also after one
    more pruning. -/
def Recent [Torch τ] (cfg : HookConfig) (s : Hooks τ) : Prop :=
  ∀ conversationId snapshot, s.saved conversationId = some snapshot →
    (getLatestSnapshot cfg.baseDir conversationId s.disk).1 =
        .ok (some (snapshot.metadata.turnNumber, snapshot.metadata)) ∧
      (loadSnapshot cfg.baseDir conversationId (some snapshot.metadata.turnNumber) none
        s.disk).1 = .ok snapshot ∧
      (loadSnapshot cfg.baseDir conversationId (some snapshot.metadata.turnNumber) none
        (pruneOldSnapshots cfg.baseDir cfg.retention conversationId s.disk).2).1 = .ok snapshot

/-! ### What a callback stores -/

section Steps

variable [Torch τ] {cfg : HookConfig} {store : SnapshotKey → Option (StoredSnapshot τ)}
  {cid : String} {snapshot : StoredSnapshot τ} {s : Hooks τ}

theorem prune_keeps_latest {fs : FileSystem (Content τ)} (keepsOne : cfg.KeepsOne)
    (onDisk : OnDisk cfg.baseDir fs store) (sanitized : Sanitized cid) :
    ∃ store', OnDisk cfg.baseDir (pruneOldSnapshots cfg.baseDir cfg.retention cid fs).2
        store' ∧
      ∀ other turn snapshot, IsLatest store other turn snapshot →
        IsLatest store' other turn snapshot := by
  obtain ⟨deleted, fs', pruned, onDisk', off, below⟩ := onDisk.prune sanitized cfg.retention
  rw [pruned]
  refine ⟨_, onDisk', ?_⟩
  intro other turn snapshot latest
  apply latest.without
  rcases keepsOne with positive | isOff
  · exact below positive
  · rw [off isOff]
    nofun

def SavedIsLatest (cfg : HookConfig) (s : Hooks τ) : Prop :=
  ∃ store, OnDisk cfg.baseDir s.disk store ∧
    ∀ conversationId snapshot, s.saved conversationId = some snapshot →
      IsLatest store conversationId snapshot.metadata.turnNumber snapshot

theorem SavedIsLatest.afterStore [DecidableEq τ] (keepsOne : cfg.KeepsOne)
    (savedIsLatest : SavedIsLatest cfg s) (mainLine : snapshot.metadata.branchName = none)
    (highest : ∀ turn, HasSnapshot cfg.baseDir s.disk
      ⟨snapshot.metadata.conversationId, .turn turn⟩ → turn ≤ snapshot.metadata.turnNumber) :
    SavedIsLatest cfg (s.store cfg false snapshot) := by
  obtain ⟨store, onDisk, latest⟩ := savedIsLatest
  rcases onDisk.save snapshot with
    ⟨error, disk, refused, onDisk'⟩ | ⟨paths, disk, key, written, named, accepted, -, onDisk'⟩
  · refine ⟨store, ?_, ?_⟩
    · simpa [Hooks.store, refused] using onDisk'
    · simpa [Hooks.store, refused] using latest
  obtain rfl : key = ⟨snapshot.metadata.conversationId, .turn snapshot.metadata.turnNumber⟩ := by
    rw [StoredSnapshot.key, mainLine] at named
    exact (Option.some.inj named).symm
  obtain ⟨newest, others⟩ := IsLatest.update snapshot
    (fun turn stored => highest turn (onDisk.hasSnapshot_iff.mpr stored))
  obtain ⟨store', pruned, kept⟩ := prune_keeps_latest keepsOne onDisk' accepted.1
  refine ⟨store', ?_, ?_⟩
  · simpa [Hooks.store, written] using pruned
  intro cid stored isSaved
  apply kept
  by_cases same : cid = snapshot.metadata.conversationId
  · subst same
    have isNew : stored = snapshot := by
      simpa [Hooks.store, written, eq_comm] using isSaved
    rw [isNew]
    exact newest
  · have before : s.saved cid = some stored := by
      simpa [Hooks.store, written, Function.update_of_ne same] using isSaved
    exact others _ _ _ same (latest cid stored before)

theorem hookStep_savedIsLatest [DecidableEq τ] {model : Model τ} (keepsOne : cfg.KeepsOne)
    (s : Hooks τ) (event : HookEvent τ) (s' : Hooks τ) (savedIsLatest : SavedIsLatest cfg s)
    (growing : Growing cfg s event) (stepped : hookStep cfg model s event = .ok s') :
    SavedIsLatest cfg s' := by
  cases event with
  | arrive recv uid pool =>
    cases stepped
    exact savedIsLatest
  | forward index event =>
    simp only [hookStep] at stepped
    split at stepped
    · cases stepped
    · split at stepped
      · cases stepped
      · cases stepped
        exact savedIsLatest
  | hook index now wanted warm =>
    simp only [hookStep] at stepped
    split at stepped
    · cases stepped
    · next life found =>
      split at stepped
      · cases stepped
        exact savedIsLatest
      · next snapshot stored =>
        cases stepped
        obtain ⟨asked, live⟩ := postForwardSnapshot_some stored
        obtain ⟨-, conversation, turn, mainLine⟩ := storeLive_some live
        obtain ⟨cold, highest⟩ := growing asked
        rw [cold]
        refine savedIsLatest.afterStore keepsOne mainLine ?_
        rw [conversation, turn]
        exact highest life found

theorem SavedIsLatest.recent (keepsOne : cfg.KeepsOne) (savedIsLatest : SavedIsLatest cfg s) :
    Recent cfg s := by
  obtain ⟨store, onDisk, latest⟩ := savedIsLatest
  intro cid snapshot isSaved
  have isLatest := latest cid snapshot isSaved
  have accepted := onDisk.accepted (Option.isSome_iff_exists.mpr ⟨_, isLatest.1⟩)
  have loads : ∀ fs store', OnDisk cfg.baseDir fs store' →
      IsLatest store' cid snapshot.metadata.turnNumber snapshot →
      (loadSnapshot cfg.baseDir cid (some snapshot.metadata.turnNumber) none fs).1 =
        .ok snapshot := by
    intro fs store' onDisk' isLatest'
    exact (onDisk'.load_eq_ok_iff rfl).mpr isLatest'.1
  obtain ⟨store', pruned, kept⟩ := prune_keeps_latest keepsOne onDisk accepted.1
  obtain ⟨fs', answer, -⟩ := onDisk.getLatestSnapshot_of_isLatest isLatest
  exact ⟨by rw [answer], loads _ _ onDisk isLatest, loads _ _ pruned (kept _ _ _ isLatest)⟩

end Steps

/-! ### Runs -/

section Runs

variable [DecidableEq τ] [Torch τ]

/-- While no callback passes a count below a stored turn, the latest snapshot is the one
    saved last and retention keeps it. -/
theorem latest_is_last_saved_while_growing (cfg : HookConfig) (keepsOne : cfg.KeepsOne)
    (model : Model τ) (events : List (HookEvent τ)) (s : Hooks τ)
    (growing : Admissible (hookStep cfg model) (Growing cfg) {} events)
    (completed : Transition.run (hookStep cfg model) {} events = .ok s) : Recent cfg s := by
  have begins : SavedIsLatest cfg ({} : Hooks τ) := ⟨fun _ => none, .empty, nofun⟩
  exact (run_invariant (hookStep_savedIsLatest keepsOne) events {} s begins growing
    completed).recent keepsOne

def growingNames (cfg : HookConfig) (s : Hooks τ) : HookEvent τ → Bool
  | .hook index _ wanted warm =>
    !wanted || !warm && (s.lives[index]?).all (fun life =>
      shownTurnsBelow cfg.baseDir s.disk life.conversation life.hookTurn)
  | _ => true

omit [DecidableEq τ] [Torch τ] in
theorem growing_of_names {cfg : HookConfig} {s : Hooks τ} {event : HookEvent τ}
    (names : growingNames cfg s event = true) : Growing cfg s event := by
  cases event with
  | arrive recv uid pool => trivial
  | forward index event => trivial
  | hook index now wanted warm =>
    intro asked
    simp only [growingNames, asked, Bool.not_true, Bool.false_or, Bool.and_eq_true,
      Bool.not_eq_true'] at names
    refine ⟨names.1, ?_⟩
    intro life found turn stored
    have shown := names.2
    rw [found] at shown
    exact turn_le_of_shown shown stored

/-- A request with the prompt `[3]`; the callback runs after its prefill and after a
    decode step, with the turn numbers 1 and 2. -/
def oneRequest : List (HookEvent IntTensor) :=
  let spec : TensorSpec := ⟨.float32, [1]⟩
  [.arrive { rid := "r1", inputIds := [3], conversationId := some "c" } 0 (.init 2 [spec] spec),
    .forward 0 (.prefill none 1 1 { token := 9 }), .hook 0 0 true false,
    .forward 0 (.decode {}), .hook 0 1 true false]

theorem latest_is_last_saved_within_request :
    let cfg : HookConfig := { baseDir := ["store"], server := ⟨"m", 1⟩ }
    ∃ s, Transition.run (hookStep cfg Model.appending) {} oneRequest = .ok s ∧
      (s.saved "c").isSome = true ∧ Recent cfg s := by
  intro cfg
  obtain ⟨s, completed, saved⟩ : ∃ s, Transition.run (hookStep cfg Model.appending) {} oneRequest =
      .ok s ∧ (s.saved "c").isSome = true := by decide
  have growing : Admissible (hookStep cfg Model.appending)
      (fun s event => growingNames cfg s event = true) {} oneRequest := by decide
  exact ⟨s, completed, saved, latest_is_last_saved_while_growing cfg (.inl (by decide))
    Model.appending oneRequest s (growing.mono (fun _ _ => growing_of_names)) completed⟩

/-- The next request of the conversation begins at turn 1 again: its snapshot is not the
    latest, and a retention of one snapshot removes it at once. -/
theorem latest_not_last_saved :
    let cfg : HookConfig := { baseDir := ["store"], server := ⟨"m", 1⟩ }
    let keepOne : HookConfig := { cfg with retention := { maxSnapshotsPerConversation := 1 } }
    let spec : TensorSpec := ⟨.float32, [1]⟩
    let events : List (HookEvent IntTensor) := oneRequest ++
      [.arrive { rid := "r2", inputIds := [5], conversationId := some "c" } 1 (.init 2 [spec] spec),
        .forward 1 (.prefill none 1 1 { token := 8 }), .hook 1 2 true false]
    (∃ s saved, Transition.run (hookStep cfg Model.appending) {} events = .ok s ∧
      s.saved "c" = some saved ∧ saved.metadata.timestamp = 2 ∧
      (getLatestSnapshot cfg.baseDir "c" s.disk).1.toOption.join.map
        (fun found => (found.1, found.2.timestamp)) = some (2, 1) ∧ ¬ Recent cfg s) ∧
    ∃ s saved, Transition.run (hookStep keepOne Model.appending) {} events = .ok s ∧
      s.saved "c" = some saved ∧ saved.metadata.timestamp = 2 ∧
      (loadSnapshot cfg.baseDir "c" (some saved.metadata.turnNumber) none s.disk).1.toOption =
        none ∧
      ¬ Recent keepOne s := by
  intro cfg keepOne spec events
  constructor
  · obtain ⟨s, completed, saved, isSaved, time, latest⟩ :
        ∃ s, Transition.run (hookStep cfg Model.appending) {} events = .ok s ∧
          ∃ saved, s.saved "c" = some saved ∧ saved.metadata.timestamp = 2 ∧
            (getLatestSnapshot cfg.baseDir "c" s.disk).1.toOption.join.map
              (fun found => (found.1, found.2.timestamp)) = some (2, 1) := by decide +kernel
    refine ⟨s, saved, completed, isSaved, time, latest, ?_⟩
    intro recent
    have answer := (recent "c" saved isSaved).1
    rw [answer] at latest
    simp [Except.toOption, time] at latest
  obtain ⟨s, completed, saved, isSaved, time, gone⟩ :
      ∃ s, Transition.run (hookStep keepOne Model.appending) {} events = .ok s ∧
        ∃ saved, s.saved "c" = some saved ∧ saved.metadata.timestamp = 2 ∧
          (loadSnapshot cfg.baseDir "c" (some saved.metadata.turnNumber) none
            s.disk).1.toOption = none := by decide +kernel
  refine ⟨s, saved, completed, isSaved, time, gone, ?_⟩
  intro recent
  have loads := (recent "c" saved isSaved).2.1
  rw [loads] at gone
  cases gone

end Runs

end Engram.Recording
