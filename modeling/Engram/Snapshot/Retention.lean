import Engram.Snapshot.Exactness

/-!
# What retention removes

The deletion loops remove the keys they are given and nothing else. Pruning removes turns
below the highest one, and a cleanup of a conversation whose branch names are plain
removes everything stored of it.
-/

namespace Engram.Snapshot

open Lib List

variable {τ : Type} {baseDir : Path} {keys : List SnapshotKey} {cid : String} {turn : Int}
  {store : SnapshotKey → Option (StoredSnapshot τ)}

def without (keys : List SnapshotKey) (store : SnapshotKey → Option (StoredSnapshot τ)) :
    SnapshotKey → Option (StoredSnapshot τ) :=
  fun key => if key ∈ keys then none else store key

theorem without_nil (store : SnapshotKey → Option (StoredSnapshot τ)) :
    without [] store = store := by
  funext key
  simp [without]

theorem without_cons (key : SnapshotKey) (keys : List SnapshotKey)
    (store : SnapshotKey → Option (StoredSnapshot τ)) :
    without keys (Function.update store key none) = without (key :: keys) store := by
  funext other
  by_cases same : other = key
  · simp [without, same]
  · simp [without, same]

theorem without_of_not_mem {key : SnapshotKey} (kept : key ∉ keys)
    (store : SnapshotKey → Option (StoredSnapshot τ)) : without keys store key = store key :=
  if_neg kept

theorem without_of_mem {key : SnapshotKey} (gone : key ∈ keys)
    (store : SnapshotKey → Option (StoredSnapshot τ)) : without keys store key = none :=
  if_pos gone

theorem IsLatest.without {owner : String} {snapshot : StoredSnapshot τ}
    (latest : IsLatest store cid turn snapshot) {deleted : List Int}
    (below : ∀ gone ∈ deleted, ∃ later, (store ⟨owner, .turn later⟩).isSome = true ∧ gone < later) :
    IsLatest (without (deleted.map (fun gone => ⟨owner, .turn gone⟩)) store) cid turn
      snapshot := by
  have kept : (⟨cid, .turn turn⟩ : SnapshotKey) ∉
      deleted.map (fun gone => ⟨owner, .turn gone⟩) := by
    intro member
    obtain ⟨gone, isGone, same⟩ := mem_map.mp member
    cases same
    obtain ⟨later, stored, higher⟩ := below _ isGone
    have bounded := latest.2 later stored
    omega
  refine ⟨by rw [without_of_not_mem kept, latest.1], ?_⟩
  intro other stored
  rw [Snapshot.without] at stored
  split at stored
  · cases stored
  · exact latest.2 other stored

/-- A snapshot that is at least as high as the stored turns of its conversation becomes
    the latest there, and the latest of the others stay. -/
theorem IsLatest.update (snapshot : StoredSnapshot τ)
    (highest : ∀ other, (store ⟨cid, .turn other⟩).isSome = true → other ≤ turn) :
    IsLatest (Function.update store ⟨cid, .turn turn⟩ (some snapshot)) cid
        turn snapshot ∧
      ∀ owner number stored, owner ≠ cid → IsLatest store owner number stored →
        IsLatest (Function.update store ⟨cid, .turn turn⟩ (some snapshot)) owner number
          stored := by
  constructor
  · refine ⟨Function.update_self .., ?_⟩
    intro other isStored
    by_cases same : other = turn
    · exact le_of_eq same
    · rw [Function.update_of_ne (by simpa using same)] at isStored
      exact highest other isStored
  · intro owner number stored different latest
    apply latest.congr
    intro other
    exact Function.update_of_ne (by simp [different]) ..

/-- The key that the arguments of a deletion name. -/
def DeleteArgs.key (conversationId : String) (args : DeleteArgs) : Option SnapshotKey :=
  keyOf conversationId args.turnNumber args.branchName

variable [Torch τ] {fs : FileSystem (Content τ)} {store : SnapshotKey → Option (StoredSnapshot τ)}

section

variable (onDisk : OnDisk baseDir fs store)

include onDisk

theorem OnDisk.deleteEach (args : List DeleteArgs)
    (keys : List SnapshotKey) (named : args.map (DeleteArgs.key cid) = keys.map some)
    (accepted : ∀ key ∈ keys, SnapshotKey.Accepted key) :
    ∃ fs', deleteEach baseDir cid args fs = (args.length, fs') ∧
      OnDisk baseDir fs' (without keys store) := by
  induction args generalizing keys fs store with
  | nil =>
    obtain rfl : keys = [] := by
      simpa using named.symm
    exact ⟨fs, rfl, (without_nil store).symm ▸ onDisk⟩
  | cons first rest ih =>
    cases keys with
    | nil => cases named
    | cons key keys =>
      rw [map_cons, map_cons, cons.injEq] at named
      obtain ⟨fs₁, deleted, onDisk₁⟩ := onDisk.delete named.1 (accepted key (mem_cons_self ..))
      obtain ⟨fs₂, later, onDisk₂⟩ := ih onDisk₁ keys named.2
        (fun other member => accepted other (mem_cons_of_mem _ member))
      refine ⟨fs₂, ?_, without_cons key keys store ▸ onDisk₂⟩
      rw [Snapshot.deleteEach, deleted]
      simp only [later, length_cons]

theorem OnDisk.deleteTurns (turns : List Int)
    (stored : ∀ turn ∈ turns, (store ⟨cid, .turn turn⟩).isSome = true) :
    ∃ fs', Snapshot.deleteEach baseDir cid
        (turns.map (fun turn => { turnNumber := some turn })) fs = (turns.length, fs') ∧
      OnDisk baseDir fs' (without (turns.map (fun turn => ⟨cid, .turn turn⟩)) store) := by
  have named : (turns.map (fun turn => ({ turnNumber := some turn } : DeleteArgs))).map
      (DeleteArgs.key cid) =
      (turns.map (fun turn => (⟨cid, .turn turn⟩ : SnapshotKey))).map some := by
    rw [map_map, map_map]
    rfl
  obtain ⟨fs', deleted, onDisk'⟩ := onDisk.deleteEach _ _ named (by
    intro key member
    obtain ⟨turn, isTurn, rfl⟩ := mem_map.mp member
    exact onDisk.accepted (stored turn isTurn))
  exact ⟨fs', by rw [deleted, length_map], onDisk'⟩

theorem OnDisk.deleteBranches (branches : List String)
    (stored : ∀ branch ∈ branches, (store ⟨cid, .branch branch⟩).isSome = true) :
    ∃ fs', Snapshot.deleteEach baseDir cid
        (branches.map (fun branch => { branchName := some branch })) fs = (branches.length, fs') ∧
      OnDisk baseDir fs'
        (without (branches.map (fun branch => ⟨cid, .branch branch⟩)) store) := by
  have accepted : ∀ branch ∈ branches, Sanitized branch := by
    intro branch member
    exact (onDisk.accepted (stored branch member)).2
  have named : (branches.map (fun branch => ({ branchName := some branch } : DeleteArgs))).map
      (DeleteArgs.key cid) =
      (branches.map (fun branch => (⟨cid, .branch branch⟩ : SnapshotKey))).map some := by
    rw [map_map, map_map]
    refine map_congr_left ?_
    intro branch member
    have given : branch ≠ "" := (accepted branch member).1
    simp [DeleteArgs.key, keyOf, selectorOf_branch given]
  obtain ⟨fs', deleted, onDisk'⟩ := onDisk.deleteEach _ _ named (by
    intro key member
    obtain ⟨branch, isBranch, rfl⟩ := mem_map.mp member
    exact onDisk.accepted (stored branch isBranch))
  exact ⟨fs', by rw [deleted, length_map], onDisk'⟩

/-- Pruning deletes the first of the stored turns, in ascending order, until the limit is met. -/
theorem OnDisk.pruneTurns (sanitized : Sanitized cid)
    {config : SnapshotRetentionConfig} (on : config.enableAutoPruning = true) :
    ∃ (turns : List Int) (fs' : FileSystem (Content τ)), turns.Pairwise (· < ·) ∧
      (∀ turn, turn ∈ turns ↔ (store ⟨cid, .turn turn⟩).isSome = true) ∧
      pruneOldSnapshots baseDir config cid fs =
        (.ok (turns.take (turns.length - config.maxSnapshotsPerConversation).toNat).length, fs') ∧
      OnDisk baseDir fs' (without
        ((turns.take (turns.length - config.maxSnapshotsPerConversation).toNat).map
          (fun turn => ⟨cid, .turn turn⟩)) store) := by
  have isOn : ¬ config.enableAutoPruning = false := by
    simp [on]
  obtain ⟨turns, fs₁, listed, onDisk₁, ordered, listedIff⟩ := onDisk.listSnapshots sanitized
  by_cases few : (turns.length : Int) ≤ config.maxSnapshotsPerConversation
  · have none : (turns.length - config.maxSnapshotsPerConversation).toNat = 0 := by
      omega
    refine ⟨turns, fs₁, ordered, listedIff, ?_, ?_⟩
    · rw [none]
      simp only [pruneOldSnapshots, if_neg isOn, listed, if_pos few]
      rfl
    · rw [none]
      exact onDisk₁
  have again : sortedTurns turns = turns :=
    (ordered.imp (fun below => le_of_lt below)).insertionSort_eq
  have stored : ∀ turn ∈ turns.take (turns.length - config.maxSnapshotsPerConversation).toNat,
      (store ⟨cid, .turn turn⟩).isSome = true :=
    fun turn member => (listedIff turn).mp (mem_of_mem_take member)
  obtain ⟨fs₂, deleted, onDisk₂⟩ := onDisk₁.deleteTurns _ stored
  refine ⟨turns, fs₂, ordered, listedIff, ?_, onDisk₂⟩
  simp only [pruneOldSnapshots, if_neg isOn, listed, if_neg few, again]
  rw [deleted]

theorem OnDisk.prune (sanitized : Sanitized cid) (config : SnapshotRetentionConfig) :
    ∃ deleted fs', pruneOldSnapshots baseDir config cid fs =
        (.ok deleted.length, fs') ∧
      OnDisk baseDir fs' (without (deleted.map (fun turn => ⟨cid, .turn turn⟩)) store) ∧
      (config.enableAutoPruning = false → deleted = []) ∧
      (1 ≤ config.maxSnapshotsPerConversation → ∀ turn ∈ deleted,
        ∃ later, (store ⟨cid, .turn later⟩).isSome = true ∧ turn < later) := by
  by_cases off : config.enableAutoPruning = false
  · refine ⟨[], fs, by rw [pruneOldSnapshots, if_pos off]; rfl, ?_, fun _ => rfl, nofun⟩
    exact onDisk
  have on : config.enableAutoPruning = true := by
    simpa using off
  obtain ⟨turns, fs', ordered, listedIff, pruned, onDisk'⟩ := onDisk.pruneTurns sanitized on
  refine ⟨_, fs', pruned, onDisk', fun isOff => absurd isOff off, ?_⟩
  intro positive turn member
  -- a turn stays behind the ones that go, and the list is ascending
  generalize counted : (turns.length - config.maxSnapshotsPerConversation).toNat = count at member
  have short : count < turns.length := by
    have some : turns.take count ≠ [] := ne_nil_of_mem member
    have listed : turns.length ≠ 0 := by
      intro empty
      exact some (by simp [length_eq_zero_iff.mp empty])
    omega
  have rest : turns.drop count ≠ [] := by
    simpa using short
  obtain ⟨later, tail, shape⟩ := exists_cons_of_ne_nil rest
  have isLater : later ∈ turns.drop count := by
    simp [shape]
  rw [← take_append_drop count turns, pairwise_append] at ordered
  exact ⟨later, (listedIff later).mp (mem_of_mem_drop isLater),
    ordered.2.2 turn member later isLater⟩

end

/-! ### What pruning keeps -/

/-- The `limit` largest turns: those with fewer than `limit` stored turns above them. -/
def newest (limit : Int) (turns : Finset Int) : Finset Int :=
  turns.filter (fun turn => ((turns.filter (turn < ·)).card : Int) < limit)

omit [Torch τ] in
theorem card_above {before after : List Int}
    (ordered : (before ++ turn :: after).Pairwise (· < ·)) :
    ((before ++ turn :: after).toFinset.filter (turn < ·)).card = after.length := by
  rw [pairwise_append, pairwise_cons] at ordered
  obtain ⟨-, ⟨above, ascending⟩, below⟩ := ordered
  have same : (before ++ turn :: after).toFinset.filter (turn < ·) = after.toFinset := by
    ext other
    simp only [Finset.mem_filter, mem_toFinset, mem_append, mem_cons]
    constructor
    · rintro ⟨earlier | rfl | later, higher⟩
      · exact absurd (below other earlier turn (mem_cons_self ..)) (not_lt_of_gt higher)
      · exact absurd higher (lt_irrefl _)
      · exact later
    · intro later
      exact ⟨.inr (.inr later), above other later⟩
  have distinct : after.Nodup := ascending.imp (fun less => ne_of_lt less)
  rw [same, toFinset_card_of_nodup distinct]

omit [Torch τ] in
theorem mem_newest_iff {turns : List Int} (ordered : turns.Pairwise (· < ·)) {limit : Int}
    (listed : turn ∈ turns) :
    turn ∈ newest limit turns.toFinset ↔ turn ∉ turns.take (turns.length - limit).toNat := by
  obtain ⟨before, after, rfl⟩ := append_of_mem listed
  have distinct : (before ++ turn :: after).Nodup := ordered.imp (fun less => ne_of_lt less)
  have fresh : turn ∉ before := by
    intro again
    exact (nodup_append.mp distinct).2.2 turn again turn (mem_cons_self ..) rfl
  have position : ∀ k, turn ∈ (before ++ turn :: after).take k ↔ before.length < k := by
    intro k
    rw [take_append, mem_append]
    constructor
    · rintro (early | late)
      · exact absurd (mem_of_mem_take early) fresh
      · by_contra notBeyond
        have zero : k - before.length = 0 := by
          omega
        rw [zero, take_zero] at late
        cases late
    · intro beyond
      obtain ⟨rest, more⟩ := Nat.exists_eq_succ_of_ne_zero (n := k - before.length) (by omega)
      rw [more, take_succ_cons]
      exact .inr (mem_cons_self ..)
  rw [newest, Finset.mem_filter, card_above ordered, position, length_append, length_cons]
  simp only [mem_toFinset, listed, true_and]
  omega

theorem OnDisk.cleanup (onDisk : OnDisk baseDir fs store) (sanitized : Sanitized cid)
    (plain : PlainBranches store cid) :
    ∃ deleted fs' store', cleanupAllSnapshots baseDir cid fs = (.ok deleted, fs') ∧
      OnDisk baseDir fs' store' ∧
      ∀ key, store' key = if key.conversationId = cid then none else store key := by
  obtain ⟨turns, fs₁, listed, onDisk₁, -, listedIff⟩ := onDisk.listSnapshots sanitized
  obtain ⟨fs₂, deleted, onDisk₂⟩ := onDisk₁.deleteTurns turns (fun turn => (listedIff turn).mp)
  -- deleting the turns leaves the branches to be listed
  have branchKept : ∀ branch, without (turns.map (fun turn => ⟨cid, .turn turn⟩)) store
      ⟨cid, .branch branch⟩ = store ⟨cid, .branch branch⟩ := by
    intro branch
    exact without_of_not_mem (by simp) store
  have plain₂ : PlainBranches
      (without (turns.map (fun turn => ⟨cid, .turn turn⟩)) store) cid := by
    intro branch stored
    rw [branchKept] at stored
    exact plain branch stored
  obtain ⟨branches, fs₃, branchesListed, onDisk₃, -, branchesIff⟩ :=
    onDisk₂.listBranches sanitized plain₂
  obtain ⟨fs₄, branchesDeleted, onDisk₄⟩ :=
    onDisk₃.deleteBranches branches (fun branch => (branchesIff branch).mp)
  refine ⟨turns.length + branches.length, fs₄, _, ?_, onDisk₄, ?_⟩
  · simp only [cleanupAllSnapshots, listed, deleted, branchesListed, branchesDeleted]
  rintro ⟨owner, selector⟩
  by_cases same : owner = cid
  · subst same
    rw [if_pos rfl]
    cases selector with
    | turn turn =>
      rw [without_of_not_mem (by simp)]
      by_cases gone : turn ∈ turns
      · exact without_of_mem (mem_map_of_mem gone) store
      · rw [without_of_not_mem (by simpa using gone)]
        simpa using (listedIff turn).mpr.mt gone
    | branch branch =>
      by_cases gone : branch ∈ branches
      · exact without_of_mem (mem_map_of_mem gone) _
      · rw [without_of_not_mem (by simpa using gone)]
        simpa using (branchesIff branch).mpr.mt gone
  · rw [if_neg same, without_of_not_mem, without_of_not_mem]
    · simpa using fun _ _ other => absurd other.symm same
    · simpa using fun _ _ other => absurd other.symm same

/-- With pruning on, exactly the newest turns of the conversation stay, nothing else is
    touched, and the answer is the number of turns that went. A conversation id that does not
    pass the sanitizer has nothing stored, and the call raises. -/
theorem prune_keeps_newest (onDisk : OnDisk baseDir fs store) (conversationId : String)
    (config : SnapshotRetentionConfig) (on : config.enableAutoPruning = true)
    (positive : 1 ≤ config.maxSnapshotsPerConversation) :
    ∃ turns : Finset Int,
      (∀ turn, turn ∈ turns ↔ (store ⟨conversationId, .turn turn⟩).isSome = true) ∧
      (Sanitized conversationId → ∃ fs' store',
        pruneOldSnapshots baseDir config conversationId fs =
          (.ok (turns \ newest config.maxSnapshotsPerConversation turns).card, fs') ∧
        OnDisk baseDir fs' store' ∧
        ((newest config.maxSnapshotsPerConversation turns).card : Int) =
          min config.maxSnapshotsPerConversation turns.card ∧
        (∀ turn, store' ⟨conversationId, .turn turn⟩ =
          if turn ∈ newest config.maxSnapshotsPerConversation turns then
            store ⟨conversationId, .turn turn⟩
          else none) ∧
        (∀ branch, store' ⟨conversationId, .branch branch⟩ =
          store ⟨conversationId, .branch branch⟩) ∧
        ∀ key, key.conversationId ≠ conversationId → store' key = store key) ∧
      (¬ Sanitized conversationId → turns = ∅ ∧
        ∃ error, pruneOldSnapshots baseDir config conversationId fs = (.error error, fs)) := by
  by_cases sanitized : Sanitized conversationId
  · obtain ⟨turns, fs', ordered, listedIff, pruned, onDisk'⟩ := onDisk.pruneTurns sanitized on
    have distinct : turns.Nodup := ordered.imp (fun less => ne_of_lt less)
    generalize limited : config.maxSnapshotsPerConversation = limit at pruned onDisk' positive ⊢
    -- what goes, as a set
    have gone : turns.toFinset \ newest limit turns.toFinset =
        (turns.take (turns.length - limit).toNat).toFinset := by
      ext turn
      rw [Finset.mem_sdiff, mem_toFinset, mem_toFinset]
      constructor
      · rintro ⟨listed, dropped⟩
        rw [mem_newest_iff ordered listed, not_not] at dropped
        exact dropped
      · intro taken
        have listed := mem_of_mem_take taken
        refine ⟨listed, ?_⟩
        rw [mem_newest_iff ordered listed, not_not]
        exact taken
    have goneCard : (turns.toFinset \ newest limit turns.toFinset).card =
        (turns.take (turns.length - limit).toNat).length := by
      rw [gone, toFinset_card_of_nodup (distinct.sublist (take_sublist ..))]
    have total : turns.toFinset.card = turns.length := toFinset_card_of_nodup distinct
    have keptCard : (turns.toFinset \ newest limit turns.toFinset).card +
        (newest limit turns.toFinset).card = turns.toFinset.card :=
      Finset.card_sdiff_add_card_eq_card (Finset.filter_subset ..)
    refine ⟨turns.toFinset, ?_, ?_, fun refused => absurd sanitized refused⟩
    · intro turn
      rw [mem_toFinset, listedIff]
    intro _
    refine ⟨fs', _, by rw [goneCard]; exact pruned, onDisk', ?_, ?_, ?_, ?_⟩
    · rw [goneCard, total, length_take] at keptCard
      rw [total]
      omega
    · intro turn
      by_cases taken : turn ∈ turns.take (turns.length - limit).toNat
      · have listed := mem_of_mem_take taken
        rw [without_of_mem (mem_map_of_mem taken), if_neg]
        rw [mem_newest_iff ordered listed, not_not]
        exact taken
      rw [without_of_not_mem (fun member => by
        obtain ⟨other, isTaken, same⟩ := mem_map.mp member
        cases same
        exact taken isTaken)]
      by_cases listed : turn ∈ turns
      · rw [if_pos ((mem_newest_iff ordered listed).mpr taken)]
      · have absent : store ⟨conversationId, .turn turn⟩ = none := by
          simpa using (listedIff turn).mpr.mt listed
        rw [absent, ite_self]
    · intro branch
      refine without_of_not_mem ?_ store
      intro member
      obtain ⟨turn, -, same⟩ := mem_map.mp member
      cases same
    · intro key other
      refine without_of_not_mem ?_ store
      intro member
      obtain ⟨turn, -, rfl⟩ := mem_map.mp member
      exact other rfl
  · have none : ∀ turn, (store ⟨conversationId, .turn turn⟩).isSome = false := by
      intro turn
      by_contra stored
      rw [Bool.not_eq_false] at stored
      exact sanitized (onDisk.accepted stored).1
    refine ⟨∅, by simp [none], fun accepted => absurd accepted sanitized, fun _ => ⟨rfl, ?_⟩⟩
    obtain accepted | ⟨error, refused⟩ := getConversationDir_cases baseDir conversationId fs
    · exact absurd accepted sanitized
    · exact ⟨error, by simp [pruneOldSnapshots, on, listSnapshots, refused]⟩

def plainTurn (turn : Int) : StoredSnapshot IntTensor where
  convStates := [⟨.float32, [1], [5]⟩]
  temporalStates := ⟨.float32, [1], [5]⟩
  metadata :=
    { conversationId := "c", turnNumber := turn, timestamp := 0, tokenCount := 2, modelName := "m"
      mambaPoolIdx := 1, reqPoolIdx := 1, layerConfig := [] }

def plainTurns : List Nat → SnapshotKey → Option (StoredSnapshot IntTensor)
  | [] => fun _ => none
  | turn :: turns =>
    Function.update (plainTurns turns) ⟨"c", .turn turn⟩ (some (plainTurn turn))

private theorem plainTurns_onDisk (turns : List Nat) :
    ∃ fs, OnDisk ["data"] fs (plainTurns turns) := by
  induction turns with
  | nil => exact ⟨.empty, .empty⟩
  | cons turn turns ih =>
    obtain ⟨fs, onDisk⟩ := ih
    have sound : Sound false (⟨.float32, [1], [5]⟩ : IntTensor) := by
      decide
    have storable : (plainTurn turn).Storable := by
      refine ⟨cons_ne_nil _ _, ?_⟩
      rw [validateStateTensors_isValid_iff]
      exact ⟨cons_ne_nil _ _, by simpa [plainTurn] using sound, sound⟩
    have plain : Sanitized "c" := by
      decide
    rcases onDisk.save (plainTurn turn) with
      ⟨error, fs', refused, -⟩ | ⟨paths, fs', key, -, isKey, -, -, saved⟩
    · have ok := saveSnapshot_ok ["data"] storable
        (show (plainTurn turn).key = some ⟨"c", .turn turn⟩ from rfl)
          ⟨plain, Int.natCast_nonneg turn⟩ fs
      rw [refused] at ok
      cases ok
    · obtain rfl : ⟨"c", .turn turn⟩ = key := Option.some.inj isKey
      exact ⟨fs', saved⟩

private theorem plainTurns_isSome (turns : List Nat) (turn : Int) :
    (plainTurns turns ⟨"c", .turn turn⟩).isSome = true ↔
    ∃ stored ∈ turns, (stored : Int) = turn := by
  induction turns with
  | nil => simp [plainTurns]
  | cons stored turns ih =>
    rw [plainTurns, Function.update_apply]
    by_cases same : (stored : Int) = turn
    · simp [same]
    · rw [if_neg (by simpa using fun other => same other.symm), ih]
      simp [same]

/-- Of the turns 1, 2 and 3 a limit of 2 removes one. -/
theorem prune_keeps_newest_of_three :
    ∃ (fs : FileSystem (Content IntTensor)), OnDisk ["data"] fs (plainTurns [1, 2, 3]) ∧
      ∃ fs', pruneOldSnapshots ["data"] { maxSnapshotsPerConversation := 2 } "c" fs =
        (.ok 1, fs') := by
  obtain ⟨fs, onDisk⟩ := plainTurns_onDisk [1, 2, 3]
  obtain ⟨turns, isStored, pruned, -⟩ :=
    prune_keeps_newest onDisk "c" { maxSnapshotsPerConversation := 2 } rfl (by decide)
  obtain ⟨fs', store', answered, -⟩ := pruned (by decide)
  have listed : turns = {1, 2, 3} := by
    ext turn
    rw [isStored, plainTurns_isSome]
    simp [eq_comm]
  rw [listed] at answered
  exact ⟨fs, onDisk, fs', answered⟩

end Engram.Snapshot
