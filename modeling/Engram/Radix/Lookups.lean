import Engram.Radix.Accounts

/-!
# Insertions and lookups

Each index that a match returns was inserted for the same tokens under the same extra key
(`matched_indices_inserted`), and a key that was just inserted is found as a whole
(`insert_then_match`).
-/

namespace Engram.Radix

open Lib Lib.Transition List

/-- The operation inserts the index for the last page of these tokens. -/
def Op.Gives (pageSize : Nat) (extraKey : Option String) (tokens : List Nat) (index : Nat) :
    Op → Prop
  | .insert key value _ _ _ => key.extraKey = extraKey ∧ tokens <+: key.tokenIds ∧
      index ∈ (value.drop (tokens.length - pageSize)).take pageSize
  | _ => False

namespace Recorded

variable {cfg : CacheConfig} {s s' : Recorded} {op : Op} {extraKey : Option String}
  {tokens : List Nat}
  {index slot prevPrefixLen : Nat} {d : Cache.Descent} {middle c : Cache}
  {inserted : Cache.InsertResult}

theorem mem_step_pages (stepped : s.step cfg op = .ok s')
    (recorded : index ∈ s'.pages extraKey tokens) :
    index ∈ s.pages extraKey tokens ∨ op.Gives cfg.pageSize extraKey tokens index := by
  cases op with
  | insert key value slot prevPrefixLen lengths =>
    obtain ⟨⟨inserted, c'⟩, -, isNext⟩ := bind_ok stepped
    cases isNext
    simp only [storePages] at recorded
    split_ifs at recorded with isKey
    · exact .inr ⟨isKey.2.1.symm, isKey.2.2, recorded⟩
    · exact .inl recorded
  | _ =>
    obtain ⟨use, -, isNext⟩ := bind_ok stepped
    cases isNext
    exact .inl recorded

theorem mem_run_pages {ops : List Op} (reached : run (step cfg) s ops = .ok s')
    (recorded : index ∈ s'.pages extraKey tokens) :
    index ∈ s.pages extraKey tokens ∨
      ∃ op ∈ ops, op.Gives cfg.pageSize extraKey tokens index := by
  induction ops generalizing s with
  | nil =>
    cases reached
    exact .inl recorded
  | cons op ops ih =>
    obtain ⟨mid, stepped, reached⟩ := run_cons_ok reached
    rcases ih reached with before | ⟨later, member, gives⟩
    · exact (mem_step_pages stepped before).imp_right fun gives => ⟨op, mem_cons_self, gives⟩
    · exact .inr ⟨later, mem_cons_of_mem _ member, gives⟩

/-- After every run, evictions included, each index that a match returns was inserted under the
    same extra key, for a page up to which both keys have the same tokens. -/
theorem matched_indices_inserted (cfg : CacheConfig) (numPages size : Nat) (ops : List Op)
    (s : Recorded) (allowed : Admissible (step cfg) (Allowed cfg) (reset numPages size) ops)
    (reached : run (step cfg) (reset numPages size) ops = .ok s) (key : RadixKey)
    (cow : Option (Option Nat)) (result : Cache.MatchResult) (c' : Cache)
    (matched : s.use.cache.matchPrefix cfg key cow = .ok (result, c')) (index : Nat)
    (returned : index ∈ result.deviceIndices) :
    ∃ op ∈ ops, ∃ j, (j + 1) * cfg.pageSize ≤ key.length ∧
      op.Gives cfg.pageSize key.extraKey (key.tokenIds.take ((j + 1) * cfg.pageSize)) index := by
  have sound := run_sound allowed reached
  by_cases untried : cfg.disable = true ∨ key.length = 0
  · -- a match that is not tried returns nothing
    rw [Cache.matchPrefix, if_pos (by simpa using untried)] at matched
    cases matched
    exact absurd returned not_mem_nil
  rw [not_or, Bool.not_eq_true] at untried
  rcases Cache.matchPrefix_ok untried.1 sound.use.inv sound.use.leaves key untried.2 cow with
    ⟨_, _, _, _, _, _, matched', answers⟩ | ⟨-, -, -, failed⟩
  · rw [matched] at matched'
    cases matched'
    obtain ⟨tokens, longest⟩ := answers_longest sound answers
    rw [longest.indices, indicesOf, mem_flatMap] at returned
    obtain ⟨j, inside, recorded⟩ := returned
    have within : (j + 1) * cfg.pageSize ≤ tokens.length :=
      (Nat.mul_le_mul_right _ (mem_range.mp inside)).trans (Nat.div_mul_le_self ..)
    obtain ⟨rest, isKey⟩ := longest.within
    rw [← take_append_of_le_length within, isKey] at recorded
    rcases mem_run_pages reached recorded with nothing | ⟨op, member, gives⟩
    · exact absurd nothing not_mem_nil
    · exact ⟨op, member, j, within.trans longest.within.length_le, gives⟩
  · rw [matched] at failed
    cases failed

theorem matched_indices_inserted_halfInserted :
    ∃ op ∈ halfInserted, ∃ j, (j + 1) * 2 ≤ 4 ∧
      op.Gives 2 none ([1, 2, 3, 9].take ((j + 1) * 2)) 11 := by
  obtain ⟨s, reached, result, c', matched, returned⟩ :
      ∃ s, run (step pagedConfig) (reset 20 4) halfInserted = .ok s ∧ ∃ result c',
        s.use.cache.matchPrefix pagedConfig ⟨[1, 2, 3, 9], none⟩ none = .ok (result, c') ∧
          11 ∈ result.deviceIndices := by decide +kernel
  exact matched_indices_inserted pagedConfig 20 4 halfInserted s (by decide +kernel) reached
    ⟨[1, 2, 3, 9], none⟩ none result c' matched 11 returned

theorem inserted_hasState (sound : s.Sound cfg) {key : RadixKey} {value : List Nat}
    (someKey : key.length ≠ 0) (lengths : value.length = key.length)
    (inserts : Cache.Inserts cfg s.use.held s.use.cache key value slot prevPrefixLen d middle
      inserted c) : c.tree.HasState key.extraKey key.tokenIds := by
  have begins : Cache.Descending cfg s.use.held (⟨rootNode, key, value, 0⟩, s.use.cache) :=
    ⟨sound.use.inv, sound.use.leaves, .inl rfl, fun notRoot => absurd rfl notRoot, lengths,
      fun empty => absurd empty someKey⟩
  obtain ⟨_, _, along⟩ := Cache.along_of_rounds inserts.rounds begins sound.faithful.aligned
    ⟨.here rootNode, rfl, rfl, rfl, rfl⟩
  obtain ⟨values, n, path, isState, -⟩ := inserts.finishes.stored inserts.reached.inv along
  exact ⟨values, n, path, isState⟩

/-- After every run a key that is inserted is found by a match as a whole, with the inserted
    state if there was none, and with the inserted indices if nothing of it was there. -/
theorem insert_then_match (cfg : CacheConfig) (numPages size : Nat) (ops : List Op)
    (s : Recorded) (allowed : Admissible (step cfg) (Allowed cfg) (reset numPages size) ops)
    (reached : run (step cfg) (reset numPages size) ops = .ok s) (enabled : cfg.disable = false)
    (key : RadixKey) (value : List Nat) (slot prevPrefixLen : Nat) (someKey : key.length ≠ 0)
    (lengths : value.length = key.length) (aligned : key.Aligned cfg.pageSize) :
    ∃ inserted c result c',
      s.use.cache.insert cfg key value slot prevPrefixLen = .ok (inserted, c) ∧
      c.matchPrefix cfg key none = .ok (result, c') ∧
      result.deviceIndices.length = key.length ∧
      (inserted.prefixLen = 0 → result.deviceIndices = value) ∧
      (inserted.mambaExist = false →
        (c'.tree.nodes result.lastDeviceNode).mambaValue = some slot) := by
  have sound := run_sound allowed reached
  obtain ⟨inserted, c, d, middle, ran, inserts⟩ :=
    Cache.insert_ok slot prevPrefixLen enabled someKey lengths sound.use.inv sound.use.leaves
  let s' : Recorded :=
    { use := { s.use with cache := c }
      states := storeState s.states key slot inserted.mambaExist
      pages := storePages cfg.pageSize s.pages key value inserted.prefixLen }
  have stepped : s.step cfg (.insert key value slot prevPrefixLen lengths) = .ok s' := by
    simp only [step, ran]
    rfl
  have after : s'.Sound cfg := step_sound sound (by exact ⟨trivial, aligned⟩) stepped
  rcases Cache.matchPrefix_ok enabled after.use.inv after.use.leaves key someKey none with
    ⟨result, c', _, _, _, _, matched, answers⟩ | ⟨copies, -⟩
  · obtain ⟨tokens, longest⟩ := answers_longest after answers
    -- the key itself has a state, so it is the longest of its prefixes
    obtain rfl : tokens = key.tokenIds := longest.within.eq_of_length_le
      (longest.longest _ prefix_rfl (.inl (inserted_hasState sound someKey lengths inserts)))
    refine ⟨inserted, c, result, c', ran, matched, longest.path.length_eq answers.inv.shape,
      fun nothing => ?_, fun isNew => ?_⟩
    · -- nothing of the key was there, so each of its pages was stored by this insertion
      have keeps : Keeps cfg.pageSize s'.pages key.extraKey key.tokenIds value := by
        intro j within
        have isPage := length_take_of_le within
        have positive := Nat.mul_pos j.succ_pos cfg.positive
        simp only [s', storePages, nothing, isPage, positive, true_and, take_prefix, if_true]
        rw [Nat.succ_mul, Nat.add_sub_cancel]
      exact longest.indices.trans (keeps.indices aligned lengths).symm
    · rcases longest.state with ⟨empty, -⟩ | ⟨slot', isSlot, stored⟩
      · exact absurd (congrArg length empty) someKey
      · rw [isSlot, ← stored]
        exact if_pos ⟨isNew, rfl, rfl⟩
  · cases copies

/-- The first page of the key was there, the second is new. -/
theorem insert_then_match_halfInserted :
    let key : RadixKey := ⟨[1, 2, 5, 6], none⟩
    ∃ s, run (step pagedConfig) (reset 20 4) halfInserted = .ok s ∧
      (∃ result c', s.use.cache.matchPrefix pagedConfig key none = .ok (result, c') ∧
        result.deviceIndices.length = 2) ∧
      ∃ inserted c result c',
        s.use.cache.insert pagedConfig key [30, 31, 32, 33] 9 0 = .ok (inserted, c) ∧
        c.matchPrefix pagedConfig key none = .ok (result, c') ∧
        result.deviceIndices.length = 4 := by
  intro key
  obtain ⟨s, reached, before⟩ :
      ∃ s, run (step pagedConfig) (reset 20 4) halfInserted = .ok s ∧
        ∃ result c', s.use.cache.matchPrefix pagedConfig key none = .ok (result, c') ∧
          result.deviceIndices.length = 2 := by
    decide +kernel
  obtain ⟨inserted, c, result, c', ran, matched, length, -⟩ := insert_then_match pagedConfig 20 4
    halfInserted s (by decide +kernel) reached rfl key [30, 31, 32, 33] 9 0 (by decide) rfl
    (by decide)
  exact ⟨s, reached, before, inserted, c, result, c', ran, matched, length⟩

end Recorded

end Engram.Radix
