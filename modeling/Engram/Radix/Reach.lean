import Engram.Radix.Steps

/-!
# The paths of the tree

A path goes down from a node to one of its descendants, in one namespace; it spells the tokens of
the nodes it enters and collects their values. Of two paths from one node, one of which spells a
beginning of the other, the shorter one is a part of the longer one (`Reach.tail`). The changes of
the tree keep the paths to the nodes that stay.
-/

namespace Engram.Radix

open Lib List

namespace Tree

structure ChildOf (t : Tree) (extraKey : Option String) (p c : NodeId) : Prop where
  member : c ∈ t.fullLruList
  parent : (t.nodes c).parent = p
  extra : (t.nodes c).key.extraKey = extraKey

inductive Reach (t : Tree) (extraKey : Option String) :
    NodeId → List Nat → List Nat → NodeId → Prop where
  | here (n : NodeId) : Reach t extraKey n [] [] n
  | down {n c m : NodeId} {tokens values : List Nat} (child : t.ChildOf extraKey n c)
      (below : Reach t extraKey c tokens values m) :
      Reach t extraKey n ((t.nodes c).key.tokenIds ++ tokens) ((t.nodes c).value ++ values) m

namespace Reach

variable {pageSize : Nat} {t t' : Tree} {extraKey : Option String} {n m p c : NodeId}
  {tokens tokens' values values' : List Nat}

theorem snoc (above : t.Reach extraKey n tokens values p) (child : t.ChildOf extraKey p c) :
    t.Reach extraKey n (tokens ++ (t.nodes c).key.tokenIds) (values ++ (t.nodes c).value) c := by
  induction above with
  | here n =>
    have single := Reach.down child (.here c)
    simpa only [append_nil, nil_append] using single
  | down first _ ih =>
    rw [append_assoc, append_assoc]
    exact .down first (ih child)

@[elab_as_elim]
theorem snoc_induction
    {motive : ∀ m tokens values, t.Reach extraKey n tokens values m → Prop}
    (start : motive n [] [] (.here n))
    (step : ∀ p c tokens values (above : t.Reach extraKey n tokens values p)
      (child : t.ChildOf extraKey p c), motive p tokens values above →
        motive c _ _ (above.snoc child))
    (reach : t.Reach extraKey n tokens values m) : motive m tokens values reach := by
  -- the path is taken apart from its start while what is behind is kept
  have all : ∀ {x m tokens values}, t.Reach extraKey x tokens values m →
      ∀ tokens₀ values₀ (behind : t.Reach extraKey n tokens₀ values₀ x),
        motive x tokens₀ values₀ behind →
          ∃ whole, motive m (tokens₀ ++ tokens) (values₀ ++ values) whole := by
    intro x m tokens values reach
    induction reach with
    | here x =>
      intro tokens₀ values₀ behind holds
      simpa only [append_nil] using ⟨behind, holds⟩
    | down child _ ih =>
      intro tokens₀ values₀ behind holds
      rw [← append_assoc, ← append_assoc]
      exact ih _ _ (behind.snoc child) (step _ _ _ _ behind child holds)
  obtain ⟨_, whole⟩ := all reach [] [] (.here n) start
  exact whole

theorem snoc_cases (reach : t.Reach extraKey n tokens values m) :
    (m = n ∧ tokens = [] ∧ values = []) ∨
      ∃ p tokens₀ values₀, t.Reach extraKey n tokens₀ values₀ p ∧ t.ChildOf extraKey p m ∧
        tokens = tokens₀ ++ (t.nodes m).key.tokenIds ∧ values = values₀ ++ (t.nodes m).value := by
  induction reach using snoc_induction with
  | start => exact .inl ⟨rfl, rfl, rfl⟩
  | step p c tokens₀ values₀ above child _ =>
    exact .inr ⟨p, tokens₀, values₀, above, child, rfl, rfl⟩

theorem has (reach : t.Reach extraKey n tokens values m) (start : t.Has n) : t.Has m := by
  rcases reach.snoc_cases with ⟨rfl, -⟩ | ⟨_, _, _, -, child, -⟩
  · exact start
  · exact .inr child.member

theorem length_eq (shape : t.Shape pageSize) (reach : t.Reach extraKey n tokens values m) :
    values.length = tokens.length := by
  induction reach with
  | here => rfl
  | down child _ ih =>
    have lengths := (shape.keyed _ child.member).2
    rw [length_append, length_append, ih, lengths]
    rfl

theorem extra (reach : t.Reach extraKey n tokens values m) (moved : m ≠ n) :
    (t.nodes m).key.extraKey = extraKey := by
  rcases reach.snoc_cases with ⟨same, -⟩ | ⟨_, _, _, -, child, -⟩
  · exact absurd same moved
  · exact child.extra

theorem eq_of_nil (shape : t.Shape pageSize) (reach : t.Reach extraKey n [] values m) : m = n := by
  rcases reach.snoc_cases with ⟨same, -⟩ | ⟨_, _, _, -, child, spelled, -⟩
  · exact same
  · have empty := (append_eq_nil_iff.mp spelled.symm).2
    exact absurd empty (shape.keyed _ child.member).1

theorem unique (shape : t.Shape pageSize) (first : t.Reach extraKey rootNode tokens values m)
    (second : t.Reach extraKey rootNode tokens' values' m) :
    tokens = tokens' ∧ values = values' := by
  induction first using snoc_induction generalizing tokens' values' with
  | start =>
    rcases second.snoc_cases with ⟨-, rfl, rfl⟩ | ⟨_, _, _, -, child, -⟩
    · exact ⟨rfl, rfl⟩
    · exact absurd child.member shape.forest.root_out
  | step p c tokens values _ child ih =>
    rcases second.snoc_cases with ⟨isRoot, -⟩ | ⟨p', _, _, above, child', rfl, rfl⟩
    · exact absurd isRoot (shape.forest.ne_root child.member)
    · have sameParent : p' = p := child'.parent.symm.trans child.parent
      subst sameParent
      obtain ⟨rfl, rfl⟩ := ih above
      exact ⟨rfl, rfl⟩

end Reach

/-! ### Trees of whole pages -/

def PageAligned (pageSize : Nat) (t : Tree) : Prop :=
  ∀ n ∈ t.fullLruList, (t.nodes n).key.Aligned pageSize

namespace Reach

variable {pageSize : Nat} {t t' : Tree} {extraKey : Option String} {n m p c : NodeId}
  {tokens tokens' values values' : List Nat}

theorem dvd_length (aligned : t.PageAligned pageSize)
    (reach : t.Reach extraKey n tokens values m) : pageSize ∣ tokens.length := by
  induction reach with
  | here => exact Nat.dvd_zero _
  | down child _ ih =>
    rw [length_append]
    exact Nat.dvd_add (aligned _ child.member) ih

/-- A child whose key is a beginning of what another path spells is on that path. -/
theorem tail_of_child (shape : t.Shape pageSize) (aligned : t.PageAligned pageSize)
    (child : t.ChildOf extraKey n c)
    (reach : t.Reach extraKey n ((t.nodes c).key.tokenIds ++ tokens) values m) :
    ∃ values₀, t.Reach extraKey c tokens values₀ m ∧ values = (t.nodes c).value ++ values₀ := by
  have page : ∀ x ∈ t.fullLruList, pageSize ≤ (t.nodes x).key.tokenIds.length := fun x member =>
    Nat.le_of_dvd (length_pos_iff.mpr (shape.keyed x member).1) (aligned x member)
  generalize spelled : (t.nodes c).key.tokenIds ++ tokens = whole at reach
  cases reach with
  | here =>
    exact absurd (append_eq_nil_iff.mp spelled).1 (shape.keyed c child.member).1
  | @down _ c' _ rest values₀ child' below =>
    -- both children begin with the first page of `whole`
    have samePage := congrArg (take pageSize) spelled
    rw [take_append_of_le_length (page c child.member),
      take_append_of_le_length (page c' child'.member)] at samePage
    have same : c = c' := by
      apply shape.childKey_inj child.member child'.member (child.parent.trans child'.parent.symm)
      rw [RadixKey.childKey, RadixKey.childKey, child.extra, child'.extra, samePage]
    subst same
    rw [append_cancel_left_eq] at spelled
    subst spelled
    exact ⟨values₀, below, rfl⟩

/-- Of two paths the one that spells more goes on where the other ends. -/
theorem tail (shape : t.Shape pageSize) (aligned : t.PageAligned pageSize)
    (short : t.Reach extraKey n tokens values p)
    (long : t.Reach extraKey n (tokens ++ tokens') values' m) :
    ∃ values₀, t.Reach extraKey p tokens' values₀ m ∧ values' = values ++ values₀ := by
  induction short generalizing values' with
  | here => exact ⟨values', long, rfl⟩
  | down child _ ih =>
    rw [append_assoc] at long
    obtain ⟨values₁, rest, rfl⟩ := long.tail_of_child shape aligned child
    obtain ⟨values₂, last, rfl⟩ := ih rest
    exact ⟨values₂, last, (append_assoc ..).symm⟩

theorem node_unique (shape : t.Shape pageSize) (aligned : t.PageAligned pageSize)
    (first : t.Reach extraKey n tokens values p) (second : t.Reach extraKey n tokens values' m) :
    m = p := by
  rw [← append_nil tokens] at second
  obtain ⟨_, rest, -⟩ := tail shape aligned first second
  exact rest.eq_of_nil shape

/-- A path that spells something enters a child whose key it begins with. -/
theorem exists_child (nonempty : tokens ≠ []) (reach : t.Reach extraKey n tokens values m) :
    ∃ c, t.ChildOf extraKey n c ∧ (t.nodes c).key.tokenIds <+: tokens := by
  cases reach with
  | here => exact absurd rfl nonempty
  | down child _ => exact ⟨_, child, prefix_append ..⟩

end Reach

/-! ### Paths after a change -/

section Changes

variable {pageSize : Nat} {t t' : Tree} {extraKey : Option String} {n m p c : NodeId}
  {tokens values : List Nat}

theorem Reach.transfer (member : ∀ c, c ∈ t.fullLruList → c ∈ t'.fullLruList)
    (fields : ∀ c ∈ t.fullLruList, (t'.nodes c).parent = (t.nodes c).parent ∧
      (t'.nodes c).key = (t.nodes c).key ∧ (t'.nodes c).value = (t.nodes c).value)
    (reach : t.Reach extraKey n tokens values m) : t'.Reach extraKey n tokens values m := by
  induction reach with
  | here n => exact .here n
  | @down _ c _ _ _ child _ ih =>
    obtain ⟨parent, key, value⟩ := fields c child.member
    rw [← key, ← value]
    exact .down ⟨member c child.member, parent.trans child.parent, key ▸ child.extra⟩ ih

theorem SameTree.symm (same : SameTree t t') : SameTree t' t where
  nextId := same.nextId.symm
  full := same.full.symm
  children := fun n => (same.children n).symm
  parent := fun n => (same.parent n).symm
  key := fun n => (same.key n).symm
  value := fun n => (same.value n).symm

theorem SameTree.reach_of (same : SameTree t t') (reach : t.Reach extraKey n tokens values m) :
    t'.Reach extraKey n tokens values m :=
  reach.transfer (fun _ => same.full.mem_iff.mpr)
    (fun c _ => ⟨same.parent c, same.key c, same.value c⟩)

theorem SameTree.reach_iff (same : SameTree t t') :
    t'.Reach extraKey n tokens values m ↔ t.Reach extraKey n tokens values m :=
  ⟨same.symm.reach_of, same.reach_of⟩

theorem SameTree.pageAligned (same : SameTree t t') (aligned : t.PageAligned pageSize) :
    t'.PageAligned pageSize := by
  intro n member
  rw [same.key]
  exact aligned n (same.full.mem_iff.mp member)

namespace Split

variable {child : NodeId} {k : Nat}

section

variable (split : t.Split pageSize child k t')

include split

theorem childOf_new (child' : t.ChildOf extraKey p child) : t'.ChildOf extraKey p t.nextId := by
  refine ⟨split.full.mem_iff.mpr mem_cons_self, ?_, ?_⟩
  · rw [split.parent, if_pos rfl, child'.parent]
  · rw [split.key, if_pos rfl, RadixKey.extraKey_take, child'.extra]

theorem childOf_child (shape : t.Shape pageSize)
    (child' : t.ChildOf extraKey p child) : t'.ChildOf extraKey t.nextId child := by
  have childNe := shape.ne_new (.inr split.member)
  refine ⟨split.full.mem_iff.mpr (mem_cons_of_mem _ split.member), ?_, ?_⟩
  · rw [split.parent, if_neg childNe, if_pos rfl]
  · rw [split.key, if_neg childNe, if_pos rfl, RadixKey.extraKey_drop, child'.extra]

theorem key_new :
    (t'.nodes t.nextId).key.tokenIds = (t.nodes child).key.tokenIds.take k := by
  rw [split.key, if_pos rfl]
  rfl

theorem value_new :
    (t'.nodes t.nextId).value = (t.nodes child).value.take k := by
  rw [split.value, if_pos rfl]

theorem key_child (shape : t.Shape pageSize) :
    (t'.nodes child).key.tokenIds = (t.nodes child).key.tokenIds.drop k := by
  rw [split.key, if_neg (shape.ne_new (.inr split.member)), if_pos rfl]
  rfl

theorem value_child (shape : t.Shape pageSize) :
    (t'.nodes child).value = (t.nodes child).value.drop k := by
  rw [split.value, if_neg (shape.ne_new (.inr split.member)), if_pos rfl]

theorem other (shape : t.Shape pageSize) (old : c ∈ t.fullLruList) (different : c ≠ child) :
    (t'.nodes c).parent = (t.nodes c).parent ∧ (t'.nodes c).key = (t.nodes c).key ∧
      (t'.nodes c).value = (t.nodes c).value := by
  have notNew := shape.ne_new (.inr old)
  refine ⟨?_, ?_, ?_⟩
  · rw [split.parent, if_neg notNew, if_neg different]
  · rw [split.key, if_neg notNew, if_neg different]
  · rw [split.value, if_neg notNew, if_neg different]

theorem reach_of (shape : t.Shape pageSize)
    (reach : t.Reach extraKey n tokens values m) : t'.Reach extraKey n tokens values m := by
  induction reach with
  | here n => exact .here n
  | @down _ c _ tokens values isChild _ ih =>
    by_cases same : c = child
    · subst same
      -- the path goes through the upper half now
      have lower := Reach.down (split.childOf_child shape isChild) ih
      have both := Reach.down (split.childOf_new isChild) lower
      rw [split.key_new, split.value_new, split.key_child shape, split.value_child shape,
        ← append_assoc, ← append_assoc, take_append_drop, take_append_drop] at both
      exact both
    · obtain ⟨parent, key, value⟩ := split.other shape isChild.member same
      rw [← key, ← value]
      refine .down ⟨?_, parent.trans isChild.parent, key ▸ isChild.extra⟩ ih
      exact split.full.mem_iff.mpr (mem_cons_of_mem _ isChild.member)

/-- A path of the new tree is a path of the old one, or it ends at the upper half. -/
theorem reach_cases (shape : t.Shape pageSize)
    (reach : t'.Reach extraKey rootNode tokens values m) :
    (m ≠ t.nextId ∧ t.Reach extraKey rootNode tokens values m) ∨
      (m = t.nextId ∧ ∃ tokens₀ values₀,
        t.Reach extraKey rootNode tokens₀ values₀ (t.nodes child).parent ∧
        t.ChildOf extraKey (t.nodes child).parent child ∧
        tokens = tokens₀ ++ (t.nodes child).key.tokenIds.take k ∧
        values = values₀ ++ (t.nodes child).value.take k) := by
  induction reach using Reach.snoc_induction with
  | start => exact .inl ⟨shape.new_ne_root.symm, .here _⟩
  | step p c tokens values _ isChild ih =>
    by_cases isNew : c = t.nextId
    · subst isNew
      -- the upper half is entered from the old parent
      have isParent : (t.nodes child).parent = p := by
        rw [← isChild.parent, split.parent, if_pos rfl]
      have parentNe := shape.ne_new (shape.has_parent split.member)
      have extra : (t.nodes child).key.extraKey = extraKey := by
        rw [← isChild.extra, split.key, if_pos rfl, RadixKey.extraKey_take]
      rcases ih with ⟨-, above⟩ | ⟨isNew, -⟩
      · refine .inr ⟨rfl, tokens, values, isParent ▸ above, ⟨split.member, rfl, extra⟩, ?_, ?_⟩
        · rw [split.key_new]
        · rw [split.value_new]
      · exact absurd (isParent.trans isNew) parentNe
    have old : c ∈ t.fullLruList :=
      (mem_cons.mp (split.full.mem_iff.mp isChild.member)).resolve_left isNew
    refine .inl ⟨isNew, ?_⟩
    by_cases same : c = child
    · subst same
      -- both halves together spell what the child spelled
      have isParent : p = t.nextId := by
        rw [← isChild.parent, split.parent, if_neg isNew, if_pos rfl]
      rcases ih with ⟨notNew, -⟩ | ⟨-, tokens₀, values₀, above, child', rfl, rfl⟩
      · exact absurd isParent notNew
      · rw [split.key_child shape, split.value_child shape, append_assoc, append_assoc,
          take_append_drop, take_append_drop]
        exact above.snoc child'
    obtain ⟨parent, key, value⟩ := split.other shape old same
    have isParent : (t.nodes c).parent = p := parent.symm.trans isChild.parent
    rcases ih with ⟨-, above⟩ | ⟨isNewParent, -⟩
    · rw [key, value]
      exact above.snoc ⟨old, isParent, key ▸ isChild.extra⟩
    · exact absurd (isParent.trans isNewParent) (shape.ne_new (shape.has_parent old))

end

end Split

namespace Grown

variable {key : RadixKey} {value : List Nat} {slot : Nat}

theorem reach_of (grown : t.Grown pageSize p key value slot t') (shape : t.Shape pageSize)
    (reach : t.Reach extraKey n tokens values m) : t'.Reach extraKey n tokens values m := by
  apply reach.transfer
  · exact fun c member => grown.full.mem_iff.mpr (mem_cons_of_mem _ member)
  · intro c member
    obtain ⟨parent, key, value, -⟩ := grown.old (shape.ne_new (.inr member))
    exact ⟨parent, key, value⟩

/-- A path of the new tree is a path of the old one, or it ends at the new leaf. -/
theorem reach_cases (grown : t.Grown pageSize p key value slot t') (shape : t.Shape pageSize)
    (reach : t'.Reach extraKey rootNode tokens values m) :
    (m ≠ t.nextId ∧ t.Reach extraKey rootNode tokens values m) ∨
      (m = t.nextId ∧ key.extraKey = extraKey ∧ ∃ tokens₀ values₀,
        t.Reach extraKey rootNode tokens₀ values₀ p ∧
        tokens = tokens₀ ++ key.tokenIds ∧ values = values₀ ++ value) := by
  induction reach using Reach.snoc_induction with
  | start => exact .inl ⟨shape.new_ne_root.symm, .here _⟩
  | step q c tokens values _ isChild ih =>
    by_cases isNew : c = t.nextId
    · subst isNew
      have isParent : p = q := by rw [← isChild.parent, grown.new]
      have extra : key.extraKey = extraKey := by rw [← isChild.extra, grown.new]
      subst isParent
      rcases ih with ⟨-, above⟩ | ⟨isNewParent, -⟩
      · rw [grown.new]
        exact .inr ⟨rfl, extra, tokens, values, above, rfl, rfl⟩
      · exact absurd isNewParent (shape.ne_new grown.has)
    have old : c ∈ t.fullLruList :=
      (mem_cons.mp (grown.full.mem_iff.mp isChild.member)).resolve_left isNew
    obtain ⟨parent, sameKey, sameValue, -⟩ := grown.old isNew
    have isParent : (t.nodes c).parent = q := parent.symm.trans isChild.parent
    rcases ih with ⟨-, above⟩ | ⟨isNewParent, -⟩
    · rw [sameKey, sameValue]
      exact .inl ⟨isNew, above.snoc ⟨old, isParent, sameKey ▸ isChild.extra⟩⟩
    · exact absurd (isParent.trans isNewParent) (shape.ne_new (shape.has_parent old))

end Grown

end Changes

end Tree

end Engram.Radix
