import Engram.Tier.HostPool

/-!
# What stays in the host memory pool

The pool over any sequence of calls: its byte counter is the size of what it stores,
both limits hold, and the entries stand in the order of their last use.
-/

namespace Engram.Tier

open Lib Snapshot List

variable {τ : Type}

inductive HostCall (τ : Type) where
  | saveState (conversationId : String) (entry : HostPoolEntry τ)
  | getState (conversationId : String)
  | getStateForReference (conversationId targetConversationId : String)
  | removeState (conversationId : String)
  | clear

/-- A pool, with the conversations that were saved or read so far, one for each time. -/
structure UsedPool (τ : Type) where
  host : MambaHostPool τ := {}
  used : List String := []

variable [Torch τ]

def UsedPool.call (limits : HostPoolLimits) (run : UsedPool τ) : HostCall τ → UsedPool τ
  | .saveState cid entry =>
    let (saved, host) := run.host.saveState limits cid entry
    ⟨host, if saved then run.used ++ [cid] else run.used⟩
  | .getState cid =>
    let (found, host) := run.host.getState cid
    ⟨host, if found.isSome then run.used ++ [cid] else run.used⟩
  | .getStateForReference cid target =>
    let (found, host) := run.host.getStateForReference limits cid target
    ⟨host, if found.isSome then run.used ++ [target] else run.used⟩
  | .removeState cid => { run with host := (run.host.removeState cid).2 }
  | .clear => { run with host := {} }

namespace MambaHostPool

def storedBytes (host : MambaHostPool τ) : Nat :=
  (host.pool.items.map (·.2.memoryBytes)).sum

structure Accounted (limits : HostPoolLimits) (host : MambaHostPool τ) : Prop where
  bytes : host.currentMemoryBytes = host.storedBytes
  memory : host.currentMemoryBytes ≤ max limits.maxMemoryBytes 0
  count : host.pool.size ≤ limits.maxConversations

variable {limits : HostPoolLimits} {host host' : MambaHostPool τ} {cid : String}
  {entry : HostPoolEntry τ}

theorem storedBytes_erase (found : host.pool.lookup cid = some entry) (current : Int) :
    host.storedBytes =
      entry.memoryBytes + (MambaHostPool.mk (host.pool.erase cid) current).storedBytes := by
  have perm := (OrderedDict.items_perm_erase found).map (·.2.memoryBytes)
  exact perm.sum_eq

theorem Accounted.erase (accounted : host.Accounted limits)
    (found : host.pool.lookup cid = some entry) :
    Accounted limits ⟨host.pool.erase cid, host.currentMemoryBytes - entry.memoryBytes⟩ := by
  obtain ⟨bytes, memory, count⟩ := accounted
  have freed := storedBytes_erase found (host.currentMemoryBytes - entry.memoryBytes)
  have fewer := host.pool.size_erase_le cid
  constructor
  · simp only
    omega
  · simp only
    omega
  · simp only
    omega

structure Roomy (limits : HostPoolLimits) (entrySize : Nat) (host : MambaHostPool τ) : Prop where
  memory : host.currentMemoryBytes + entrySize ≤ max limits.maxMemoryBytes 0
  count : host.pool.size + 1 ≤ limits.maxConversations

omit [Torch τ] in
theorem HasRoom.roomy {entrySize : Nat} (room : host.HasRoom limits entrySize) :
    host.Roomy limits entrySize := by
  simp only [HasRoom, not_or, not_le, not_lt] at room
  exact ⟨by omega, by omega⟩

theorem Accounted.insert (accounted : host.Accounted limits) (absent : cid ∉ host.pool)
    (room : host.Roomy limits entry.memoryBytes) :
    Accounted limits
      ⟨host.pool.insert cid entry, host.currentMemoryBytes + entry.memoryBytes⟩ := by
  obtain ⟨bytes, memory, count⟩ := accounted
  obtain ⟨fits, spare⟩ := room
  constructor
  · simp only [bytes, storedBytes, OrderedDict.insert, if_neg absent]
    simp
  · omega
  · simp only [OrderedDict.size_insert_of_not_mem absent]
    omega

/-- What an eviction, a removal or the loop of `save_state` leaves: fewer entries in the
    same order. -/
structure Shrinks (limits : HostPoolLimits) (host host' : MambaHostPool τ) : Prop where
  accounted : host.Accounted limits → host'.Accounted limits
  keys : host'.pool.keys.Sublist host.pool.keys
  room : ∀ entrySize, host.Roomy limits entrySize → host'.Roomy limits entrySize

theorem Shrinks.refl (limits : HostPoolLimits) (host : MambaHostPool τ) :
    Shrinks limits host host :=
  ⟨id, .refl _, fun _ => id⟩

theorem shrinks_erase (found : host.pool.lookup cid = some entry) :
    Shrinks limits host
      ⟨host.pool.erase cid, host.currentMemoryBytes - entry.memoryBytes⟩ where
  accounted := fun accounted => accounted.erase found
  keys := filter_sublist.map _
  room := by
    rintro entrySize ⟨fits, spare⟩
    have fewer := host.pool.size_erase_le cid
    exact ⟨by simp only; omega, by simp only; omega⟩

theorem removeState_shrinks (limits : HostPoolLimits) (cid : String) (host : MambaHostPool τ) :
    Shrinks limits host (host.removeState cid).2 := by
  unfold removeState
  split
  · exact .refl limits host
  · next found => exact shrinks_erase found

/-- Entries that are within both limits together with a new one. -/
def Fits (limits : HostPoolLimits) (entry : HostPoolEntry τ)
    (items : List (String × HostPoolEntry τ)) : Prop :=
  items.length + 1 ≤ limits.maxConversations ∧
    (items.map (·.2.memoryBytes)).sum + entry.memoryBytes ≤ limits.maxMemoryBytes
deriving Decidable

theorem Fits.sublist {items items' : List (String × HostPoolEntry τ)}
    (fits : Fits limits entry items') (fewer : items.Sublist items') :
    Fits limits entry items := by
  have length := fewer.length_le
  have bytes := (fewer.map (·.2.memoryBytes)).sum_le_sum fun _ _ => Nat.zero_le _
  obtain ⟨count, memory⟩ := fits
  exact ⟨by omega, by omega⟩

theorem hasRoom_iff (bytes : host.currentMemoryBytes = host.storedBytes) :
    host.HasRoom limits entry.memoryBytes ↔ Fits limits entry host.pool.items := by
  simp only [HasRoom, Fits, bytes, storedBytes, OrderedDict.size]
  omega

structure LongestFit (limits : HostPoolLimits) (entry : HostPoolEntry τ)
    (items left : List (String × HostPoolEntry τ)) : Prop where
  isTail : left <:+ items
  fits : Fits limits entry left
  longest : ∀ tail, tail <:+ items → Fits limits entry tail → tail <:+ left

theorem LongestFit.whole {items : List (String × HostPoolEntry τ)}
    (room : Fits limits entry items) :
    LongestFit limits entry items items :=
  ⟨suffix_rfl, room, fun _ inside _ => inside⟩

theorem makeRoom_shrinks (bytes : host.currentMemoryBytes = host.storedBytes) {fuel : Nat}
    (enough : host.pool.size ≤ fuel) {made : Bool}
    (ran : host.makeRoom limits entry.memoryBytes fuel = (made, host')) :
    Shrinks limits host host' ∧
      if made then LongestFit limits entry host.pool.items host'.pool.items
      else ¬ Fits limits entry [] ∧ host'.pool.items = [] := by
  induction fuel generalizing host with
  | zero =>
    have empty : host.pool.items = [] := length_eq_zero_iff.mp (Nat.le_zero.mp enough)
    cases ran
    refine ⟨.refl limits _, ?_⟩
    split
    · next room => exact .whole ((hasRoom_iff bytes).mp (of_decide_eq_true room))
    · next full => exact ⟨empty ▸ (hasRoom_iff bytes).not.mp (by simpa using full), empty⟩
  | succ fuel ih =>
    rw [makeRoom] at ran
    split at ran
    · next room =>
      cases ran
      exact ⟨.refl limits _, .whole ((hasRoom_iff bytes).mp room)⟩
    next full =>
    rw [hasRoom_iff bytes] at full
    rcases first : host.pool.first? with _ | ⟨oldest, old⟩ <;> rw [evictLru, first] at ran
    · cases ran
      have empty := head?_eq_none_iff.mp first
      exact ⟨.refl limits _, empty ▸ full, empty⟩
    -- the oldest entry goes, since the whole list does not fit
    have found := OrderedDict.first?_mem first
    have isItems := OrderedDict.items_of_first? first
    have freed := storedBytes_erase found (host.currentMemoryBytes - old.memoryBytes)
    obtain ⟨rest, fit⟩ := ih (by dsimp only; omega) (by
      rw [OrderedDict.size, isItems] at enough
      exact Nat.le_of_succ_le_succ enough) ran
    rw [isItems] at full ⊢
    have one : Shrinks limits host _ := shrinks_erase found
    refine ⟨⟨rest.accounted ∘ one.accounted, rest.keys.trans one.keys,
      fun size => rest.room size ∘ one.room size⟩, ?_⟩
    cases made with
    | false => exact fit
    | true =>
      refine ⟨fit.isTail.trans (suffix_cons ..), fit.fits, fun tail inside fits => ?_⟩
      rcases suffix_cons_iff.mp inside with rfl | later
      · exact absurd fits full
      · exact fit.longest tail later fits

end MambaHostPool

/-! ### The order of the last use -/

omit [Torch τ] in
theorem dedup_append_singleton (used : List String) (cid : String) :
    (used ++ [cid]).dedup = used.dedup.filter (· ≠ cid) ++ [cid] := by
  induction used with
  | nil => rfl
  | cons other used ih =>
    rw [cons_append]
    by_cases again : other ∈ used
    · rw [dedup_cons_of_mem again, dedup_cons_of_mem (mem_append_left _ again), ih]
    rw [dedup_cons_of_notMem again]
    by_cases same : other = cid
    · rw [dedup_cons_of_mem (by simp [same]), ih]
      simp [same]
    · rw [dedup_cons_of_notMem (by simp [again, same]), ih]
      simp [same]

/-- The pool keeps its accounts, and its entries stand in the order in which the
    conversations were last used (`List.dedup` keeps the last occurrence of each). -/
structure UsedPool.Kept (limits : HostPoolLimits) (run : UsedPool τ) : Prop where
  accounted : run.host.Accounted limits
  order : run.host.pool.keys.Sublist run.used.dedup

namespace UsedPool.Kept

variable {limits : HostPoolLimits} {host host' : MambaHostPool τ} {used : List String}

theorem empty (limited : 0 ≤ limits.maxConversations) (used : List String) :
    Kept limits (⟨{}, used⟩ : UsedPool τ) :=
  ⟨⟨rfl, le_max_right _ _, limited⟩, nil_sublist _⟩

section

variable (kept : Kept limits ⟨host, used⟩)

include kept

theorem shrink (shrinks : MambaHostPool.Shrinks limits host host') : Kept limits ⟨host', used⟩ :=
  ⟨shrinks.accounted kept.accounted, shrinks.keys.trans kept.order⟩

theorem insert {cid : String} (absent : cid ∉ host.pool)
    {entry : HostPoolEntry τ} (room : host.Roomy limits entry.memoryBytes) :
    Kept limits ⟨⟨host.pool.insert cid entry, host.currentMemoryBytes + entry.memoryBytes⟩,
      used ++ [cid]⟩ := by
  refine ⟨kept.accounted.insert absent room, ?_⟩
  have others : host.pool.keys.filter (· ≠ cid) = host.pool.keys := by
    rw [filter_eq_self]
    intro other member
    simpa using fun same : other = cid => absent (same ▸ member)
  have order := (kept.order.filter (· ≠ cid)).append_right [cid]
  rw [others, ← dedup_append_singleton] at order
  have last : (host.pool.insert cid entry).keys = host.pool.keys ++ [cid] := by
    simp [OrderedDict.keys, OrderedDict.insert, absent]
  rw [← last] at order
  exact order

theorem save (cid : String) (entry : HostPoolEntry τ) :
    Kept limits (UsedPool.call limits ⟨host, used⟩ (.saveState cid entry)) := by
  rcases made : host.makeRoom limits entry.memoryBytes host.pool.size with ⟨saved, left⟩
  obtain ⟨shrinks, fit⟩ :=
    MambaHostPool.makeRoom_shrinks kept.accounted.bytes (Nat.le_refl _) made
  simp only [UsedPool.call, MambaHostPool.saveState, made]
  cases saved with
  | false => exact kept.shrink shrinks
  | true =>
    have removed := left.removeState_shrinks limits cid
    have room : left.HasRoom limits entry.memoryBytes ↔ _ :=
      MambaHostPool.hasRoom_iff (shrinks.accounted kept.accounted).bytes
    have absent : cid ∉ (left.removeState cid).2.pool := by
      rw [OrderedDict.not_mem_iff_lookup, MambaHostPool.removeState_lookup, if_pos rfl]
    exact ((kept.shrink shrinks).shrink removed).insert absent
      (removed.room _ (room.mpr fit.fits).roomy)

theorem get (cid : String) :
    Kept limits (UsedPool.call limits ⟨host, used⟩ (.getState cid)) := by
  simp only [UsedPool.call]
  cases found : host.pool.lookup cid with
  | none =>
    rw [MambaHostPool.getState_of_none found]
    exact kept
  | some entry =>
    have present := OrderedDict.size_erase_of_mem (OrderedDict.mem_of_lookup found)
    obtain ⟨bytes, memory, count⟩ := kept.accounted
    simp only at bytes memory count
    have absent : cid ∉ host.pool.erase cid := by
      rw [OrderedDict.not_mem_iff_lookup, OrderedDict.lookup_erase, if_pos rfl]
    have room : MambaHostPool.Roomy limits entry.memoryBytes
        ⟨host.pool.erase cid, host.currentMemoryBytes - entry.memoryBytes⟩ :=
      ⟨by simp only; omega, by simp only; omega⟩
    have moved := (kept.shrink (MambaHostPool.shrinks_erase found)).insert absent room
    rw [MambaHostPool.getState_of_some found]
    simpa [OrderedDict.moveToEnd, found] using moved

end

end UsedPool.Kept

theorem UsedPool.call_kept {limits : HostPoolLimits} {run : UsedPool τ} (kept : run.Kept limits)
    (call : HostCall τ) : (run.call limits call).Kept limits := by
  cases call with
  | saveState cid entry => exact kept.save cid entry
  | getState cid => exact kept.get cid
  | getStateForReference cid target =>
    simp only [UsedPool.call, MambaHostPool.getStateForReference]
    split
    · exact kept
    · exact kept.get target
  | removeState cid => exact kept.shrink (run.host.removeState_shrinks limits cid)
  | clear =>
    have count := kept.accounted.count
    exact .empty (by omega) run.used

/-- After any sequence of calls the counter is the number of bytes stored, at most the
    limit (a negative limit keeps the pool at 0 bytes), there are at most
    `max_conversations` entries, and they stand in the order of their last use. -/
theorem hostPool_accounts (limits : HostPoolLimits) (atLeastOne : 1 ≤ limits.maxConversations)
    (calls : List (HostCall τ)) :
    let run := calls.foldl (UsedPool.call limits) {}
    run.host.currentMemoryBytes = run.host.storedBytes ∧
      run.host.currentMemoryBytes ≤ max limits.maxMemoryBytes 0 ∧
      run.host.pool.size ≤ limits.maxConversations ∧
      run.host.pool.keys.Sublist run.used.dedup := by
  have kept := foldlRecOn (motive := UsedPool.Kept limits) calls (UsedPool.call limits)
    (.empty (by omega) []) (fun _ kept call _ => UsedPool.call_kept kept call)
  exact ⟨kept.accounted.bytes, kept.accounted.memory, kept.accounted.count, kept.order⟩

theorem hostPool_accounts_read_outlives_saved :
    let entry : HostPoolEntry IntTensor := ⟨[], ⟨.float32, [1], [5]⟩, none⟩
    let limits : HostPoolLimits := { maxConversations := 2 }
    let calls := [.saveState "a" entry, .saveState "b" entry, .getState "a",
      .saveState "c" entry]
    ∃ run : UsedPool IntTensor, calls.foldl (UsedPool.call limits) {} = run ∧
      run.host.pool.keys = ["a", "c"] ∧ run.used.dedup = ["b", "a", "c"] ∧
      run.host.currentMemoryBytes = run.host.storedBytes := by
  intro entry limits calls
  have accounts := hostPool_accounts limits (by decide) calls
  exact ⟨_, rfl, by decide +kernel, by decide +kernel, accounts.1⟩

/-! ### Minimal evictions -/

namespace MambaHostPool

variable {limits : HostPoolLimits} {host : MambaHostPool τ} {cid : String} {entry : HostPoolEntry τ}

theorem removeState_items :
    (host.removeState cid).2.pool.items = host.pool.items.filter (·.1 ≠ cid) := by
  rw [removeState]
  split
  · next absent =>
    refine (filter_eq_self.mpr fun other member => decide_eq_true ?_).symm
    rintro rfl
    exact OrderedDict.not_mem_iff_lookup.mpr absent (mem_map_of_mem member)
  · rfl

/-- A save that gives up changes nothing, and one that succeeds only drops the oldest of the other
    conversations, as few as make the new entry fit in the place of the old one. -/
def SavesMinimally (limits : HostPoolLimits) (cid : String) (entry : HostPoolEntry τ)
    (host : MambaHostPool τ) : Prop :=
  let result := host.saveState limits cid entry
  if result.1 then ∃ left, LongestFit limits entry (host.pool.items.filter (·.1 ≠ cid)) left ∧
    result.2.pool.items = left ++ [(cid, entry)]
  else result.2.pool.items = host.pool.items

/-- A save evicts minimally exactly if an entry that is too large finds the pool empty, and a tail
    of the entries that starts with another conversation and fits without the old entry of this one
    fits with it. -/
theorem saveState_minimal_iff (bytes : host.currentMemoryBytes = host.storedBytes) :
    host.SavesMinimally limits cid entry ↔
      (¬ Fits limits entry [] → host.pool.items = []) ∧
      ∀ item rest, item :: rest <:+ host.pool.items → item.1 ≠ cid →
        Fits limits entry ((item :: rest).filter (·.1 ≠ cid)) →
        Fits limits entry (item :: rest) := by
  rcases made : host.makeRoom limits entry.memoryBytes host.pool.size with ⟨_ | _, left⟩
  · obtain ⟨-, tooLarge, empty⟩ := makeRoom_shrinks bytes (Nat.le_refl _) made
    simp only [SavesMinimally, saveState, made, empty, Bool.false_eq_true, if_false]
    constructor
    · intro unchanged
      rw [← unchanged]
      exact ⟨fun _ => rfl, by simp⟩
    · exact fun counted => (counted.1 tooLarge).symm
  have fit : LongestFit limits entry host.pool.items left.pool.items :=
    (makeRoom_shrinks bytes (Nat.le_refl _) made).2
  have absent : cid ∉ (left.removeState cid).2.pool := by
    rw [OrderedDict.not_mem_iff_lookup, removeState_lookup, if_pos rfl]
  have saved : host.SavesMinimally limits cid entry ↔ LongestFit limits entry
      (host.pool.items.filter (·.1 ≠ cid)) (left.pool.items.filter (·.1 ≠ cid)) := by
    simp only [SavesMinimally, saveState, made, OrderedDict.insert, if_neg absent,
      removeState_items, append_cancel_right_eq, if_true, exists_eq_right']
  rw [saved]
  constructor
  · intro longest
    refine ⟨fun tooLarge => absurd (fit.fits.sublist (nil_sublist _)) tooLarge, ?_⟩
    intro item rest inside other fits
    have within := longest.longest _ (inside.filter _) fits
    -- of two tails one is in the other
    rcases suffix_or_suffix_of_suffix inside fit.isTail with tail | longer
    · exact fit.fits.sublist tail.sublist
    rcases suffix_cons_iff.mp longer with same | shorter
    · exact same ▸ fit.fits
    · have less := within.length_le
      have fewer := (shorter.filter (·.1 ≠ cid)).length_le
      rw [filter_cons_of_pos (by simpa using other), length_cons] at less
      omega
  · rintro ⟨-, counted⟩
    refine ⟨fit.isTail.filter _, fit.fits.sublist filter_sublist, fun tail inside fits => ?_⟩
    cases tail with
    | nil => exact nil_suffix
    | cons item tail =>
      -- the tail comes from one of the whole list
      obtain ⟨front, isAll⟩ := inside
      obtain ⟨before, after, parts, -, isTail⟩ := filter_eq_append_iff.mp isAll.symm
      obtain ⟨between, rest, rfl, -, kept, isRest⟩ := filter_eq_cons_iff.mp isTail
      have isFilter : (item :: rest).filter (·.1 ≠ cid) = item :: tail := by
        rw [filter_cons, if_pos kept, isRest]
      have inItems : item :: rest <:+ host.pool.items := by
        rw [parts, ← append_assoc]
        exact suffix_append ..
      rw [← isFilter] at fits ⊢
      exact (fit.longest _ inItems (counted item rest inItems (by simpa using kept) fits)).filter _

/-- Entries of 4 bytes in a pool for two conversations. -/
def fullPool : MambaHostPool IntTensor :=
  let entry : HostPoolEntry IntTensor := ⟨[], ⟨.float32, [1], [5]⟩, none⟩
  { pool := (OrderedDict.empty.insert "a" entry).insert "b" entry, currentMemoryBytes := 8 }

/-- The oldest conversation makes place for a new one. -/
theorem saveState_minimal_new :
    fullPool.SavesMinimally { maxConversations := 2 } "c" ⟨[], ⟨.float32, [1], [7]⟩, none⟩ := by
  refine (saveState_minimal_iff (by decide +kernel)).mpr
    ⟨fun full => absurd full (by decide +kernel), fun item rest inside _ fits => ?_⟩
  have others : ∀ item ∈ fullPool.pool.items, decide (item.1 ≠ "c") = true := by decide +kernel
  rwa [filter_eq_self.mpr fun item member => others item (inside.mem member)] at fits

/-- The newest of two conversations is saved again, and the other one is evicted. -/
theorem saveState_evicts_other :
    let limits : HostPoolLimits := { maxConversations := 2 }
    let entry : HostPoolEntry IntTensor := ⟨[], ⟨.float32, [1], [7]⟩, none⟩
    let saved := fullPool.saveState limits "b" entry
    Fits limits entry (fullPool.pool.items.filter (·.1 ≠ "b")) ∧ saved.1 = true ∧
      saved.2.pool.keys = ["b"] := by
  decide +kernel

end MambaHostPool

end Engram.Tier
