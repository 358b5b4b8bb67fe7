import Engram.Radix.Matching

/-!
# Hits and misses

`match_prefix` counts the nodes on the way to the one it returns in `hit_tokens`, and the rest of
the key in `miss_tokens`. The hits are the returned indices exactly where each of these nodes has
one token (`countTokens_exact_iff`).
-/

namespace Engram.Radix

open Lib Lib.Transition List

namespace Tree

inductive Descends (t : Tree) (extraKey : Option String) :
    List (List Nat) → List Nat → NodeId → Prop where
  | root : Descends t extraKey [] [] rootNode
  | child {segments : List (List Nat)} {tokens : List Nat} {p n : NodeId}
      (above : Descends t extraKey segments tokens p) (childOf : t.ChildOf extraKey p n) :
      Descends t extraKey (segments ++ [(t.nodes n).value]) (tokens ++ (t.nodes n).key.tokenIds) n

/-- The deepest node with a Mamba state on the way of the key is as many nodes as tokens below
    the root. -/
def TokenByToken (t : Tree) (key : RadixKey) : Prop :=
  ∀ segments tokens n, t.Descends key.extraKey segments tokens n → tokens <+: key.tokenIds →
    (t.nodes n).mambaValue.isSome = true →
    (∀ longer, longer <+: key.tokenIds → t.HasState key.extraKey longer →
      longer.length ≤ tokens.length) →
    segments.length = tokens.length

variable {pageSize : Nat} {held : List NodeId} {t t' : Tree} {extraKey : Option String}
  {key : RadixKey} {n : NodeId} {segments segments' : List (List Nat)} {tokens tokens' : List Nat}
  {found found' : Found}

namespace Descends

variable (descends : t.Descends extraKey segments tokens n)

include descends

theorem reach : t.Reach extraKey rootNode tokens segments.flatten n := by
  induction descends with
  | root => exact .here _
  | child _ childOf ih =>
    rw [flatten_append, flatten_singleton]
    exact ih.snoc childOf

theorem length_le (shape : t.Shape pageSize) : segments.length ≤ tokens.length := by
  induction descends with
  | root => exact Nat.le_refl _
  | child _ childOf ih =>
    have nonempty := length_pos_iff.mpr (shape.keyed _ childOf.member).1
    rw [length_append, length_append, length_singleton]
    omega

theorem unique (shape : t.Shape pageSize) (other : t.Descends extraKey segments' tokens' n) :
    segments = segments' := by
  induction descends generalizing segments' tokens' with
  | root =>
    cases other with
    | root => rfl
    | child _ childOf => exact absurd childOf.member shape.forest.root_out
  | child _ childOf ih =>
    cases other with
    | root => exact absurd childOf.member shape.forest.root_out
    | child above' childOf' =>
      obtain rfl := childOf.parent.symm.trans childOf'.parent
      rw [ih above']

end Descends

structure Best (t : Tree) (extraKey : Option String) (segments : List (List Nat))
    (tokens : List Nat) (found : Found) : Prop where
  descends : t.Descends extraKey segments tokens found.bestLastNode
  count : segments.length = found.bestValueLen
  passed : segments <+: found.value
  state : tokens = [] ∨ (t.nodes found.bestLastNode).mambaValue.isSome = true

theorem Best.update (best : t.Best extraKey segments tokens found)
    (path : t.Descends extraKey found.value tokens' n) :
    ∃ segments tokens, t.Best extraKey segments tokens (found.update t n) := by
  rw [Found.update]
  split
  · next hasState => exact ⟨_, _, path, rfl, prefix_rfl, .inr hasState⟩
  · exact ⟨_, _, best⟩

theorem matchLoop_best (inv : t.Inv pageSize held) {fuel : Nat}
    (ran : matchLoop pageSize fuel key n found t = .ok (found', t'))
    (path : t.Descends key.extraKey found.value tokens' n)
    (best : t.Best key.extraKey segments tokens found) :
    ∃ segments tokens, t.Best key.extraKey segments tokens found' := by
  induction fuel generalizing key n found segments tokens tokens' with
  | zero =>
    rw [matchLoop] at ran
    split at ran
    · cases ran
      exact best.update path
    · cases ran
  | succ fuel ih =>
    rw [matchLoop] at ran
    split at ran
    · cases ran
      exact best.update path
    next someKey =>
    split at ran
    · cases ran
      exact best.update path
    next child lookup =>
    have isFound := inv.shape.foundChild (path.reach.has (.inl rfl)) someKey lookup
    -- the best node changes only where the walk stands on one with a state
    obtain ⟨_, _, here⟩ := best.update path
    have further : ∀ value, t.Best key.extraKey _ _
        { found.update t n with value := (found.update t n).value ++ [value] } := fun _ =>
      ⟨here.descends, here.count, here.passed.trans (prefix_append ..), here.state⟩
    rw [isFound.matchChild] at ran
    simp only [bind, Except.bind] at ran
    split at ran
    · next inside =>
      -- the upper half of a node has no state
      obtain ⟨_, splits, split⟩ := splitNode_ok inv isFound.childOf.member isFound.page inside
      rw [splits] at ran
      cases ran
      rw [Found.update, split.mambaValue, if_pos rfl]
      exact ⟨_, _, further _⟩
    · have below := path.child isFound.childOf
      rw [← Found.update_value found t n] at below
      have rest := ih ran below (further _)
      exact rest

end Tree

/-- What `match_prefix` adds to `hit_tokens` and to `miss_tokens`. -/
def Cache.countTokens (cfg : CacheConfig) (c : Cache) (key : RadixKey) :
    Except Failure (Nat × Nat) :=
  if cfg.disable || key.length == 0 then .ok (0, 0)
  else do
    let (found, _) ← c.tree.matchPrefixHelper cfg.pageSize key
    .ok (found.bestValueLen, key.length - found.bestValueLen)

namespace Recorded

open InUse (plainConfig)

variable {key : RadixKey} {cow : Option (Option Nat)} {result : Cache.MatchResult} {c' : Cache}

/-- After every run whose inserted keys are made of whole pages, a match of a key with a token
    counts the indices that it returns as hits, and all tokens of the key as hits or misses,
    exactly if the cache is enabled and the deepest node with a state is as many nodes as tokens
    below the root. -/
theorem countTokens_exact_iff (cfg : CacheConfig) (numPages size : Nat) (ops : List Op)
    (s : Recorded) (allowed : Admissible (step cfg) (Allowed cfg) (reset numPages size) ops)
    (reached : run (step cfg) (reset numPages size) ops = .ok s) (someKey : key.length ≠ 0)
    (matched : s.use.cache.matchPrefix cfg key cow = .ok (result, c')) :
    (∃ hits misses, s.use.cache.countTokens cfg key = .ok (hits, misses) ∧
      hits = result.deviceIndices.length ∧ hits + misses = key.length) ↔
    cfg.disable = false ∧ s.use.cache.tree.TokenByToken key := by
  have sound := run_sound allowed reached
  have inv := sound.use.inv
  have aligned := sound.faithful.aligned
  cases enabled : cfg.disable with
  | true =>
    simp only [Cache.countTokens, enabled, Bool.true_or, if_true]
    grind
  | false =>
  rcases Cache.matchPrefix_ok enabled inv sound.use.leaves key someKey cow with
    ⟨_, _, found, _, _, _, matched', answers⟩ | ⟨-, -, -, failed⟩
  · rw [matched] at matched'
    cases matched'
    obtain ⟨t', helped⟩ := answers.helped
    obtain ⟨segments, tokens, best⟩ :=
      Tree.matchLoop_best inv helped .root ⟨.root, rfl, prefix_rfl, .inl rfl⟩
    have reach := best.descends.reach
    have isIndices : segments.flatten = result.deviceIndices := by
      rw [answers.indices, ← best.count, ← prefix_iff_eq_take.mp best.passed]
    -- the way to the node that is returned spells the longest prefix with a state
    have inMiddle := answers.reshaped.reach_of cfg.positive inv reach
    rw [isIndices, ← answers.node] at inMiddle
    have longest := answers.longest inv aligned inMiddle
    obtain ⟨_, within, path, -⟩ := answers.path inv
    obtain rfl := (inMiddle.unique (answers.reshaped.inv cfg.positive inv).shape path).1
    have few := best.descends.length_le inv.shape
    have inside : tokens.length ≤ key.length := within.length_le
    have counted : s.use.cache.countTokens cfg key =
        .ok (segments.length, key.length - segments.length) := by
      rw [Cache.countTokens, if_neg (by simp [enabled, someKey]), helped, best.count]
      rfl
    rw [counted, ← isIndices, reach.length_eq inv.shape]
    constructor
    · rintro ⟨_, _, isCount, rfl, -⟩
      refine ⟨rfl, fun segments' tokens' n descends within' hasState deepest => ?_⟩
      -- the deepest node with a state is the one that is returned
      have same : tokens' = tokens := by
        have shorter := longest tokens' within' ⟨_, _, descends.reach, hasState⟩
        apply (prefix_of_prefix_length_le within' within shorter).eq_of_length_le
        rcases best.state with rfl | bestState
        · exact Nat.zero_le _
        · exact deepest _ within ⟨_, _, reach, bestState⟩
      subst same
      obtain rfl := Tree.Reach.node_unique inv.shape aligned reach descends.reach
      rw [descends.unique inv.shape best.descends]
      exact (Prod.mk.inj (Except.ok.inj isCount)).1
    · rintro ⟨-, tokenByToken⟩
      refine ⟨_, _, rfl, ?_, by omega⟩
      rcases best.state with rfl | bestState
      · exact Nat.le_zero.mp few
      · exact tokenByToken _ _ _ best.descends within bestState longest
  · rw [matched] at failed
    cases failed

theorem countTokens_exact_token :
    ∃ s, run (step plainConfig) (reset 20 4) [.insert ⟨[1], none⟩ [10] 7 0 rfl] = .ok s ∧
      s.use.cache.tree.TokenByToken ⟨[1, 2], none⟩ := by
  obtain ⟨s, reached, result, c', matched, counts⟩ :
      ∃ s, run (step plainConfig) (reset 20 4) [.insert ⟨[1], none⟩ [10] 7 0 rfl] = .ok s ∧
        ∃ result c', s.use.cache.matchPrefix plainConfig ⟨[1, 2], none⟩ none = .ok (result, c') ∧
        ∃ hits misses, s.use.cache.countTokens plainConfig ⟨[1, 2], none⟩ = .ok (hits, misses) ∧
          hits = result.deviceIndices.length ∧ hits + misses = 2 := by decide +kernel
  exact ⟨s, reached, ((countTokens_exact_iff plainConfig 20 4 _ s (by decide +kernel) reached
    (by decide) matched).mp counts).2⟩

/-- A whole key is found in one node, which counts as one hit. -/
theorem countTokens_segment :
    ∃ s, run (step plainConfig) (reset 20 4) [.insert ⟨[1, 2, 3], none⟩ [10, 11, 12] 7 0 rfl] =
        .ok s ∧
      s.use.cache.countTokens plainConfig ⟨[1, 2, 3], none⟩ = .ok (1, 2) ∧
      ∃ result c', s.use.cache.matchPrefix plainConfig ⟨[1, 2, 3], none⟩ none = .ok (result, c') ∧
        result.deviceIndices = [10, 11, 12] := by
  decide +kernel

end Recorded

end Engram.Radix
