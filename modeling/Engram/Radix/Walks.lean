import Engram.Radix.Reach

/-!
# The walks down the tree

`_match_prefix_helper` and the loop of `_insert_helper`. A walk spends at least one page of its
key in each round, so it ends. What it passes is a path of the tree that spells a beginning of the
key; a walk for matching may split one node, at its end (`matchPrefixHelper_ok`).
-/

namespace Engram.Radix

open Lib List

namespace Tree

variable {pageSize : Nat} {held : List NodeId} {t t' : Tree} {extraKey : Option String}
  {n child : NodeId} {key : RadixKey} {tokens values : List Nat} {found : Found}

/-! ### The child that is found -/

structure FoundChild (pageSize : Nat) (t : Tree) (n : NodeId) (key : RadixKey) (child : NodeId) :
    Prop where
  childOf : t.ChildOf key.extraKey n child
  nonempty : (t.nodes child).key.tokenIds ≠ []
  page : pageSize ≤ (t.nodes child).key.matchLen pageSize key

theorem Shape.foundChild (shape : t.Shape pageSize) (has : t.Has n) (someKey : key.length ≠ 0)
    (found : (t.nodes n).children.lookup (key.childKey pageSize) = some child) :
    t.FoundChild pageSize n key child := by
  obtain ⟨member, parent, sameKey⟩ := shape.child n has _ _ found
  have nonempty := (shape.keyed child member).1
  have otherNonempty : key.tokenIds ≠ [] := fun empty =>
    someKey (length_eq_zero_iff.mpr empty)
  exact ⟨⟨member, parent, (Prod.mk.inj sameKey).1⟩, nonempty,
    RadixKey.le_matchLen nonempty otherNonempty sameKey⟩

namespace FoundChild

theorem matchChild (found : t.FoundChild pageSize n key child) :
    t.matchChild pageSize child key = .ok ((t.nodes child).key.matchLen pageSize key) := by
  rw [Tree.matchChild, check_ok _ (by simpa using found.childOf.extra)]
  rfl

theorem whole (pageSize : Nat) (t : Tree) (key : RadixKey)
    (complete : ¬ (t.nodes child).key.matchLen pageSize key < (t.nodes child).key.length) :
    key.tokenIds = (t.nodes child).key.tokenIds ++
      key.tokenIds.drop ((t.nodes child).key.matchLen pageSize key) := by
  have common := RadixKey.take_matchLen pageSize (t.nodes child).key key
  rw [take_of_length_le (Nat.not_lt.mp complete)] at common
  rw [common]
  exact (take_append_drop ..).symm

theorem part (pageSize : Nat) (t : Tree) (key : RadixKey) (child : NodeId) :
    key.tokenIds =
      (t.nodes child).key.tokenIds.take ((t.nodes child).key.matchLen pageSize key) ++
        key.tokenIds.drop ((t.nodes child).key.matchLen pageSize key) := by
  rw [RadixKey.take_matchLen]
  exact (take_append_drop ..).symm

theorem shorter (found : t.FoundChild pageSize n key child) (positive : 0 < pageSize)
    {fuel : Nat} (enough : key.length ≤ fuel + 1) :
    (key.drop ((t.nodes child).key.matchLen pageSize key)).length ≤ fuel := by
  have page := found.page
  rw [RadixKey.length_drop]
  omega

end FoundChild

theorem Shape.lookup_of_prefix (shape : t.Shape pageSize) (aligned : t.PageAligned pageSize)
    (childOf : t.ChildOf key.extraKey n child)
    (begins : (t.nodes child).key.tokenIds <+: key.tokenIds) :
    (t.nodes n).children.lookup (key.childKey pageSize) = some child := by
  have listed := shape.listed child childOf.member
  have page : pageSize ≤ (t.nodes child).key.tokenIds.length :=
    Nat.le_of_dvd (length_pos_iff.mpr (shape.keyed child childOf.member).1)
      (aligned child childOf.member)
  obtain ⟨rest, isKey⟩ := begins
  have sameKey : (t.nodes child).key.childKey pageSize = key.childKey pageSize := by
    rw [RadixKey.childKey, RadixKey.childKey, childOf.extra, ← isKey, take_append_of_le_length page]
  rw [childOf.parent, sameKey] at listed
  exact listed

theorem Split.pageAligned {k : Nat} (split : t.Split pageSize child k t')
    (aligned : t.PageAligned pageSize) (divides : pageSize ∣ k) :
    t'.PageAligned pageSize := by
  intro n member
  rw [split.key]
  split
  · rw [RadixKey.Aligned, RadixKey.length_take, Nat.min_eq_left (Nat.le_of_lt split.inside)]
    exact divides
  · next notNew =>
    have old : n ∈ t.fullLruList :=
      (mem_cons.mp (split.full.mem_iff.mp member)).resolve_left notNew
    split
    · rw [RadixKey.Aligned, RadixKey.length_drop]
      exact Nat.dvd_sub (aligned child split.member) divides
    · exact aligned n old

theorem Touched.leaves (touched : t.Touched t') (leaves : t.Leaves) : t'.Leaves := by
  intro n member isLeaf
  rw [touched.sameTree.isLeaf] at isLeaf
  rw [touched.nodes]
  exact leaves n (touched.full.mem_iff.mp member) isLeaf

theorem Split.leaves {k : Nat} (split : t.Split pageSize child k t') (leaves : t.Leaves) :
    t'.Leaves := by
  intro n member isLeaf
  rw [split.mambaValue]
  rw [Tree.isLeaf, split.children] at isLeaf
  by_cases isNew : n = t.nextId
  · -- the upper half has a child
    rw [if_pos isNew] at isLeaf
    cases isLeaf
  have old : n ∈ t.fullLruList :=
    (mem_cons.mp (split.full.mem_iff.mp member)).resolve_left isNew
  rw [if_neg isNew] at isLeaf ⊢
  split at isLeaf
  · have found := OrderedDict.lookup_insert (t.nodes n).children
      ((t.nodes child).key.childKey pageSize) ((t.nodes child).key.childKey pageSize) t.nextId
    rw [if_pos rfl, OrderedDict.lookup, isEmpty_iff.mp isLeaf] at found
    cases found
  · exact leaves n old isLeaf

/-! ### What walks do to the tree -/

inductive Reshaped (pageSize : Nat) (t : Tree) : Tree → Prop where
  | refl : Reshaped pageSize t t
  | touched {t' t'' : Tree} (before : Reshaped pageSize t t') (touched : t'.Touched t'') :
      Reshaped pageSize t t''
  | split {t' t'' : Tree} {child : NodeId} {key : RadixKey} (before : Reshaped pageSize t t')
      (split : t'.Split pageSize child ((t'.nodes child).key.matchLen pageSize key) t'') :
      Reshaped pageSize t t''

namespace Reshaped

variable {t'' : Tree}

theorem trans (first : Reshaped pageSize t t') (second : Reshaped pageSize t' t'') :
    Reshaped pageSize t t'' := by
  induction second with
  | refl => exact first
  | touched _ touched ih => exact ih.touched touched
  | split _ split ih => exact ih.split split

section

variable (reshaped : Reshaped pageSize t t')

include reshaped

theorem inv (positive : 0 < pageSize) (inv : t.Inv pageSize held) : t'.Inv pageSize held := by
  induction reshaped with
  | refl => exact inv
  | touched _ touched ih => exact ih.touched touched
  | split _ split ih => exact ih.split split positive

theorem leaves (leaves : t.Leaves) : t'.Leaves := by
  induction reshaped with
  | refl => exact leaves
  | touched _ touched ih => exact touched.leaves ih
  | split _ split ih => exact split.leaves ih

theorem pageAligned (aligned : t.PageAligned pageSize) :
    t'.PageAligned pageSize := by
  induction reshaped with
  | refl => exact aligned
  | touched _ touched ih => exact touched.sameTree.pageAligned ih
  | split _ split ih =>
    exact split.pageAligned ih (RadixKey.matchLen_of_aligned (ih _ split.member) _).1

theorem reach_of (positive : 0 < pageSize) (inv : t.Inv pageSize held) {m : NodeId}
    (reach : t.Reach extraKey n tokens values m) : t'.Reach extraKey n tokens values m := by
  induction reshaped with
  | refl => exact reach
  | touched _ touched ih => exact touched.sameTree.reach_of ih
  | split before split ih => exact split.reach_of (before.inv positive inv).shape ih

theorem mamba : t'.mambaLruList.Perm t.mambaLruList := by
  induction reshaped with
  | refl => exact .refl _
  | touched _ touched ih => exact touched.mamba.trans ih
  | split _ split ih => exact split.mamba.trans ih

theorem sum (positive : 0 < pageSize)
    (inv : t.Inv pageSize held) {w : Load → Nat} (divides : Load.Divides w) :
    t'.sum w = t.sum w := by
  induction reshaped with
  | refl => rfl
  | touched _ touched ih => rw [touched.sum, ih]
  | split before split ih => rw [split.sum w (before.inv positive inv).shape divides, ih]

end

end Reshaped

/-! ### Matching -/

/-- The best node so far is the end of a path that spells a beginning of the key, and the
    values up to it are those of this path. -/
structure Tracks (t : Tree) (extraKey : Option String) (whole : List Nat) (found : Found) :
    Prop where
  lockable : t.Lockable found.bestLastNode
  bounded : found.bestValueLen ≤ found.value.length
  path : ∃ tokens, tokens <+: whole ∧
    t.Reach extraKey rootNode tokens (found.value.take found.bestValueLen).flatten
      found.bestLastNode

def Covers (t : Tree) (extraKey : Option String) (tokens : List Nat) (found : Found) : Prop :=
  ∀ spelled values m, t.Reach extraKey rootNode spelled values m → spelled <+: tokens →
    (t.nodes m).mambaValue.isSome = true →
    spelled.length ≤ (found.value.take found.bestValueLen).flatten.length

def CoversBefore (t : Tree) (extraKey : Option String) (tokens : List Nat) (found : Found) :
    Prop :=
  ∀ spelled values m, t.Reach extraKey rootNode spelled values m → spelled <+: tokens →
    spelled.length < tokens.length → (t.nodes m).mambaValue.isSome = true →
    spelled.length ≤ (found.value.take found.bestValueLen).flatten.length

namespace Tracks

variable {whole : List Nat}

section

variable (tracks : t.Tracks extraKey whole found)

include tracks

theorem append (value : List Nat) :
    t.Tracks extraKey whole { found with value := found.value ++ [value] } := by
  refine ⟨tracks.lockable, ?_, ?_⟩
  · rw [length_append]
    exact Nat.le_add_right_of_le tracks.bounded
  · rw [take_append_of_le_length tracks.bounded]
    exact tracks.path

theorem update (within : tokens <+: whole)
    (path : t.Reach extraKey rootNode tokens found.value.flatten n) :
    t.Tracks extraKey whole (found.update t n) := by
  rw [Found.update]
  split
  · next hasState =>
    refine ⟨?_, Nat.le_refl _, tokens, within, ?_⟩
    · exact (path.has (.inl rfl)).imp_right (fun member => ⟨member, hasState⟩)
    · rw [take_length]
      exact path
  · exact tracks

theorem split {k : Nat} (split : t.Split pageSize child k t') (shape : t.Shape pageSize) :
    t'.Tracks extraKey whole found := by
  obtain ⟨tokens, within, path⟩ := tracks.path
  refine ⟨?_, tracks.bounded, tokens, within, split.reach_of shape path⟩
  rcases tracks.lockable with isRoot | ⟨member, hasState⟩
  · exact .inl isRoot
  · rw [Lockable, split.full.mem_iff, split.mambaValue, if_neg (shape.ne_new (.inr member))]
    exact .inr ⟨mem_cons_of_mem _ member, hasState⟩

end

end Tracks

theorem Found.update_value (found : Found) (t : Tree) (n : NodeId) :
    (found.update t n).value = found.value := by
  rw [Found.update]
  split <;> rfl

section Covering

theorem CoversBefore.append (covers : t.CoversBefore extraKey tokens found)
    (bounded : found.bestValueLen ≤ found.value.length) (value : List Nat) :
    t.CoversBefore extraKey tokens { found with value := found.value ++ [value] } := by
  intro spelled values m reach within shorter hasState
  rw [take_append_of_le_length bounded]
  exact covers spelled values m reach within shorter hasState

theorem CoversBefore.update (shape : t.Shape pageSize) (aligned : t.PageAligned pageSize)
    (covers : t.CoversBefore extraKey tokens found)
    (path : t.Reach extraKey rootNode tokens found.value.flatten n) :
    t.Covers extraKey tokens (found.update t n) := by
  intro spelled values m reach within hasState
  rw [Found.update]
  split
  · rw [take_length, path.length_eq shape]
    exact within.length_le
  · next noState =>
    rcases Nat.lt_or_ge spelled.length tokens.length with shorter | longer
    · exact covers spelled values m reach within shorter hasState
    · -- the only node at the end of the way is `n`
      have same : spelled = tokens := within.eq_of_length (Nat.le_antisymm within.length_le longer)
      subst same
      exact absurd (Reach.node_unique shape aligned path reach ▸ hasState) noState

theorem Reach.prefix_of_shorter (shape : t.Shape pageSize) (aligned : t.PageAligned pageSize)
    {c m : NodeId} {spelled values' : List Nat} (path : t.Reach extraKey rootNode tokens values n)
    (child : t.ChildOf extraKey n c) (reach : t.Reach extraKey rootNode spelled values' m)
    (within : spelled <+: tokens ++ (t.nodes c).key.tokenIds)
    (shorter : spelled.length < (tokens ++ (t.nodes c).key.tokenIds).length) :
    spelled <+: tokens := by
  rcases prefix_or_prefix_of_prefix within (prefix_append ..) with before | behind
  · exact before
  obtain ⟨rest, rfl⟩ := behind
  obtain ⟨_, below, -⟩ := Reach.tail shape aligned path reach
  rw [prefix_append_right_inj] at within
  by_cases empty : rest = []
  · rw [empty, append_nil]
  exfalso
  -- a child of `n` on the way begins with the same page as `c`
  obtain ⟨other, otherChild, begins⟩ := below.exists_child empty
  have toOther : (t.nodes n).children.lookup ((t.nodes c).key.childKey pageSize) = some other :=
    shape.lookup_of_prefix aligned (child.extra ▸ otherChild) (begins.trans within)
  have toChild := shape.listed c child.member
  rw [child.parent, toOther] at toChild
  have same : other = c := Option.some.inj toChild
  subst same
  have longer := begins.length_le
  rw [length_append, length_append] at shorter
  omega

theorem Covers.before_child (shape : t.Shape pageSize) (aligned : t.PageAligned pageSize)
    (covers : t.Covers extraKey tokens found) {c : NodeId}
    (path : t.Reach extraKey rootNode tokens values n) (child : t.ChildOf extraKey n c) :
    t.CoversBefore extraKey (tokens ++ (t.nodes c).key.tokenIds) found := by
  intro spelled values' m reach within shorter hasState
  exact covers spelled values' m reach
    (Reach.prefix_of_shorter shape aligned path child reach within shorter) hasState

theorem Covers.of_stopped (key : RadixKey) (shape : t.Shape pageSize)
    (aligned : t.PageAligned pageSize) (covers : t.Covers key.extraKey tokens found)
    (path : t.Reach key.extraKey rootNode tokens values n)
    (stopped : ∀ c, t.ChildOf key.extraKey n c → ¬ (t.nodes c).key.tokenIds <+: key.tokenIds) :
    t.Covers key.extraKey (tokens ++ key.tokenIds) found := by
  intro spelled values' m reach within hasState
  rcases prefix_or_prefix_of_prefix within (prefix_append ..) with before | behind
  · exact covers spelled values' m reach before hasState
  obtain ⟨rest, rfl⟩ := behind
  obtain ⟨_, below, -⟩ := Reach.tail shape aligned path reach
  rw [prefix_append_right_inj] at within
  by_cases empty : rest = []
  · subst empty
    exact covers _ values' m reach (by rw [append_nil]) hasState
  obtain ⟨c, child, begins⟩ := below.exists_child empty
  exact absurd (begins.trans within) (stopped c child)

end Covering

theorem stopped_covers (shape : t.Shape pageSize) (aligned : t.PageAligned pageSize)
    (path : t.Reach key.extraKey rootNode tokens found.value.flatten n)
    (covers : t.CoversBefore key.extraKey tokens found)
    (stop : key.length = 0 ∨ (t.nodes n).children.lookup (key.childKey pageSize) = none) :
    t.Covers key.extraKey (tokens ++ key.tokenIds) (found.update t n) := by
  apply (covers.update shape aligned path).of_stopped key shape aligned path
  intro c child begins
  rcases stop with empty | vacant
  · rw [length_eq_zero_iff.mp empty, prefix_nil] at begins
    exact (shape.keyed c child.member).1 begins
  · rw [shape.lookup_of_prefix aligned child begins] at vacant
    cases vacant

theorem split_covers (positive : 0 < pageSize) (shape : t.Shape pageSize)
    (aligned : t.PageAligned pageSize)
    (split : t.Split pageSize child ((t.nodes child).key.matchLen pageSize key) t')
    (childOf : t.ChildOf key.extraKey n child) (bounded : found.bestValueLen ≤ found.value.length)
    (path : t.Reach key.extraKey rootNode tokens found.value.flatten n)
    (covers : t.Covers key.extraKey tokens found) :
    t'.Covers key.extraKey (tokens ++ key.tokenIds)
      (({ found with value := found.value ++ [(t'.nodes t.nextId).value] } : Found).update t'
        t.nextId) := by
  have shape' := split.shape positive shape
  have divides := (RadixKey.matchLen_of_aligned (aligned child split.member) key).1
  have aligned' := split.pageAligned aligned divides
  have upper := (split.reach_of shape path).snoc (split.childOf_new childOf)
  rw [split.key_new] at upper
  have upperPath : t'.Reach key.extraKey rootNode
      (tokens ++ (t.nodes child).key.tokenIds.take ((t.nodes child).key.matchLen pageSize key))
      (found.value ++ [(t'.nodes t.nextId).value]).flatten t.nextId := by
    rw [flatten_append, flatten_singleton]
    exact upper
  -- up to the new node the old tree had no other nodes on the way
  have before : t'.CoversBefore key.extraKey
      (tokens ++ (t.nodes child).key.tokenIds.take ((t.nodes child).key.matchLen pageSize key))
      { found with value := found.value ++ [(t'.nodes t.nextId).value] } := by
    apply CoversBefore.append _ bounded
    intro spelled values m reach within shorter hasState
    rw [split.mambaValue] at hasState
    rcases split.reach_cases shape reach with ⟨notNew, old⟩ | ⟨isNew, -⟩
    · rw [if_neg notNew] at hasState
      apply covers spelled values m old _ hasState
      apply Reach.prefix_of_shorter shape aligned path childOf old
      · exact within.trans <| (prefix_append_right_inj tokens).mpr <| take_prefix ..
      · rw [length_append, length_take] at shorter
        rw [length_append]
        omega
    · rw [if_pos isNew] at hasState
      cases hasState
  have here := before.update shape' aligned' upperPath
  have stopped := here.of_stopped (key.drop ((t.nodes child).key.matchLen pageSize key))
    shape' aligned' upperPath (by
      intro c below begins
      -- the only child of the new node is the lower half, which the key does not go on with
      have isChild : c = child := by
        by_contra different
        have parent := below.parent
        have notNew : c ≠ t.nextId := fun isNew =>
          shape'.forest.parent_ne below.member (isNew ▸ parent)
        have old := (mem_cons.mp (split.full.mem_iff.mp below.member)).resolve_left notNew
        rw [(split.other shape old different).1] at parent
        exact shape.ne_new (shape.has_parent old) parent
      subst isChild
      rw [split.key_child shape] at begins
      have longer := (prefix_append_right_inj ((t.nodes c).key.tokenIds.take
        ((t.nodes c).key.matchLen pageSize key))).mpr begins
      rw [take_append_drop, RadixKey.drop, ← FoundChild.part] at longer
      have complete := RadixKey.matchLen_of_prefix positive (aligned c split.member) longer
      have inside := split.inside
      omega)
  rw [append_assoc, RadixKey.drop, ← FoundChild.part] at stopped
  exact stopped

theorem matchLoop_ok (positive : 0 < pageSize) (inv : t.Inv pageSize held) {fuel : Nat}
    (enough : key.length ≤ fuel) (path : t.Reach key.extraKey rootNode tokens found.value.flatten n)
    (tracks : t.Tracks key.extraKey (tokens ++ key.tokenIds) found) :
    ∃ found' t', matchLoop pageSize fuel key n found t = .ok (found', t') ∧
      Reshaped pageSize t t' ∧ t'.Tracks key.extraKey (tokens ++ key.tokenIds) found' ∧
      (t.PageAligned pageSize → t.CoversBefore key.extraKey tokens found →
        t'.Covers key.extraKey (tokens ++ key.tokenIds) found') := by
  induction fuel generalizing key n found tokens with
  | zero =>
    have stop : key.length = 0 ∨ (t.nodes n).children.lookup (key.childKey pageSize) = none :=
      .inl (Nat.le_zero.mp enough)
    rw [matchLoop, if_pos stop]
    exact ⟨_, t, rfl, .refl, tracks.update (prefix_append ..) path,
      fun aligned covers => stopped_covers inv.shape aligned path covers stop⟩
  | succ fuel ih =>
    -- at each node the best prefix so far is brought up to date first
    have here := tracks.update (prefix_append ..) path
    rw [matchLoop]
    split
    · next empty =>
      exact ⟨_, t, rfl, .refl, here, fun aligned covers =>
        stopped_covers inv.shape aligned path covers (.inl empty)⟩
    next someKey =>
    split
    · next vacant =>
      exact ⟨_, t, rfl, .refl, here, fun aligned covers =>
        stopped_covers inv.shape aligned path covers (.inr vacant)⟩
    next child lookup =>
    have isFound := inv.shape.foundChild (path.has (.inl rfl)) someKey lookup
    have path' : t.Reach key.extraKey rootNode tokens (found.update t n).value.flatten n := by
      rw [Found.update_value]
      exact path
    rw [isFound.matchChild]
    simp only [bind, Except.bind]
    split
    · next inside =>
      -- the walk ends at the upper half of the child
      obtain ⟨t', splits, split⟩ := splitNode_ok inv isFound.childOf.member isFound.page inside
      rw [splits]
      refine ⟨_, t', rfl, .split .refl split, ?_, ?_⟩
      · have upper := (split.reach_of inv.shape path').snoc (split.childOf_new isFound.childOf)
        rw [split.key_new] at upper
        have within := (prefix_append_right_inj tokens).mpr
          (prefix_append ((t.nodes child).key.tokenIds.take
            ((t.nodes child).key.matchLen pageSize key))
            (key.tokenIds.drop ((t.nodes child).key.matchLen pageSize key)))
        rw [← FoundChild.part] at within
        apply ((here.split split inv.shape).append _).update within
        rw [flatten_append, flatten_singleton]
        exact upper
      · intro aligned covers
        exact split_covers positive inv.shape aligned split isFound.childOf here.bounded path'
          (covers.update inv.shape aligned path)
    · next complete =>
      -- the whole key of the child is spelled, and the walk goes on below it
      have spelled := FoundChild.whole pageSize t key complete
      have below := path'.snoc isFound.childOf
      let next : Found :=
        { found.update t n with value := (found.update t n).value ++ [(t.nodes child).value] }
      have further : t.Reach key.extraKey rootNode (tokens ++ (t.nodes child).key.tokenIds)
          next.value.flatten child := by
        rw [flatten_append, flatten_singleton]
        exact below
      have same : tokens ++ key.tokenIds = (tokens ++ (t.nodes child).key.tokenIds) ++
          (key.drop ((t.nodes child).key.matchLen pageSize key)).tokenIds := by
        rw [append_assoc, RadixKey.drop, ← spelled]
      rw [same] at here ⊢
      obtain ⟨found', t', matched, reshaped, tracks', maximal⟩ :=
        ih (isFound.shorter positive enough) further (here.append _)
      refine ⟨found', t', matched, reshaped, tracks', fun aligned covers => maximal aligned ?_⟩
      apply CoversBefore.append _ here.bounded
      exact (covers.update inv.shape aligned path).before_child inv.shape aligned path
        isFound.childOf

/-- `_match_prefix_helper` does not fail. In a tree of whole pages it finds the longest
    prefix with a Mamba state. -/
theorem matchPrefixHelper_ok (positive : 0 < pageSize) (inv : t.Inv pageSize held)
    (key : RadixKey) :
    ∃ found t', t.matchPrefixHelper pageSize key = .ok (found, t') ∧
      Reshaped pageSize t t' ∧ t'.Tracks key.extraKey key.tokenIds found ∧
      (t.PageAligned pageSize → t'.Covers key.extraKey key.tokenIds found) := by
  have start : t.Reach key.extraKey rootNode [] ([] : List (List Nat)).flatten rootNode := .here _
  have tracks : t.Tracks key.extraKey ([] ++ key.tokenIds) ⟨[], rootNode, 0⟩ :=
    ⟨.inl rfl, Nat.le_refl _, [], nil_prefix, .here _⟩
  obtain ⟨found, t', matched, reshaped, tracks', maximal⟩ :=
    matchLoop_ok positive inv (Nat.le_refl key.length) start tracks
  refine ⟨found, t', matched, reshaped, tracks', fun aligned => maximal aligned ?_⟩
  intro spelled _ _ _ _ shorter
  exact absurd shorter (Nat.not_lt_zero _)

end Tree

end Engram.Radix
