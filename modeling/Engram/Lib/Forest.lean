import Mathlib.Algebra.BigOperators.Group.List.Basic
import Mathlib.Algebra.GroupWithZero.Nat
import Mathlib.Data.List.Nodup

/-!
# Trees given by parent pointers

A finite set of members, each with a parent that is a member again or the root, which is not a
member. A counter accumulates towards the root when the count of a node is its own share and the
counts of its children: raising the share of one node raises the counts on its way to the root,
and a node with count zero has a leaf with count zero below it.
-/

namespace Engram.Lib

open List

variable {α : Type} [DecidableEq α]

/-! ### Sums over a list of distinct elements -/

/-- The sum of `f` over the members. -/
def tally (members : List α) (f : α → Nat) : Nat :=
  (members.map f).sum

section Tally

variable {members members' : List α} {f g : α → Nat} {n : α}

omit [DecidableEq α] in
@[simp] theorem tally_nil (f : α → Nat) : tally [] f = 0 := rfl

omit [DecidableEq α] in
@[simp] theorem tally_cons (n : α) (members : List α) (f : α → Nat) :
    tally (n :: members) f = f n + tally members f :=
  sum_cons

omit [DecidableEq α] in
theorem tally_perm (perm : members.Perm members') (f : α → Nat) :
    tally members f = tally members' f :=
  (perm.map f).sum_eq

omit [DecidableEq α] in
theorem tally_congr (same : ∀ n ∈ members, f n = g n) : tally members f = tally members g := by
  rw [tally, tally, map_congr_left same]

omit [DecidableEq α] in
theorem tally_add (members : List α) (f g : α → Nat) :
    tally members (fun n => f n + g n) = tally members f + tally members g := by
  induction members with
  | nil => rfl
  | cons n members ih =>
    simp only [tally_cons, ih]
    omega

omit [DecidableEq α] in
theorem tally_append (first second : List α) (f : α → Nat) :
    tally (first ++ second) f = tally first f + tally second f := by
  rw [tally, map_append, sum_append]
  rfl

omit [DecidableEq α] in
theorem tally_filter (p : α → Bool) (members : List α) (f : α → Nat) :
    tally (members.filter p) f = tally members (fun n => if p n then f n else 0) := by
  induction members with
  | nil => rfl
  | cons n members ih =>
    rw [filter_cons, tally_cons, ← ih]
    split
    · rw [tally_cons]
    · rw [Nat.zero_add]

omit [DecidableEq α] in
theorem tally_eq_zero_iff : tally members f = 0 ↔ ∀ n ∈ members, f n = 0 := by
  induction members with
  | nil => simp
  | cons n members ih => simp [ih]

theorem tally_erase (member : n ∈ members) (f : α → Nat) :
    f n + tally (members.erase n) f = tally members f :=
  sum_map_erase f member

theorem tally_change (distinct : members.Nodup) (member : n ∈ members)
    (same : ∀ other ∈ members, other ≠ n → g other = f other) :
    tally members g + f n = tally members f + g n := by
  have elsewhere : tally (members.erase n) g = tally (members.erase n) f := by
    apply tally_congr
    intro other inErase
    obtain ⟨different, inMembers⟩ := distinct.mem_erase_iff.mp inErase
    exact same other inMembers different
  rw [← tally_erase member g, ← tally_erase member f]
  omega

theorem tally_single (distinct : members.Nodup) (member : n ∈ members)
    (elsewhere : ∀ other ∈ members, other ≠ n → f other = 0) : tally members f = f n := by
  have change := tally_change distinct member (f := fun _ => 0) elsewhere
  have zero : tally members (fun _ => 0) = 0 := tally_eq_zero_iff.mpr (fun _ _ => rfl)
  omega

omit [DecidableEq α] in
theorem count_filterMap {β : Type} [DecidableEq β] (members : List α) (f : α → Option β) (b : β) :
    (members.filterMap f).count b = tally members (fun n => (f n).toList.count b) := by
  induction members with
  | nil => rfl
  | cons n members ih =>
    rw [tally_cons, ← ih]
    cases value : f n with
    | none => rw [filterMap_cons_none value, Option.toList_none, count_nil, Nat.zero_add]
    | some held =>
      rw [filterMap_cons_some value, Option.toList_some, ← count_append, singleton_append]

theorem tally_filter_notMem (distinct : members.Nodup) {taken : List α} (once : taken.Nodup)
    (inside : ∀ n ∈ taken, n ∈ members) (f : α → Nat) :
    tally (members.filter (· ∉ taken)) f + tally taken f = tally members f := by
  have same : (members.filter (· ∈ taken)).Perm taken := by
    apply (perm_ext_iff_of_nodup (distinct.filter _) once).mpr
    intro n
    simp only [mem_filter, decide_eq_true_eq, and_iff_right_iff_imp]
    exact inside n
  have parts : (members.filter (· ∈ taken) ++ members.filter (· ∉ taken)).Perm members := by
    simpa only [decide_not] using filter_append_perm (fun n => decide (n ∈ taken)) members
  rw [← tally_perm parts, tally_append, tally_perm same, Nat.add_comm]

end Tally

/-! ### Forests -/

structure Forest (members : List α) (root : α) (parent : α → α) : Prop where
  nodup : members.Nodup
  root_out : root ∉ members
  closed : ∀ n ∈ members, parent n = root ∨ parent n ∈ members
  ranked : ∃ depth : α → Nat, ∀ n ∈ members, depth (parent n) < depth n

def climb (root : α) (parent : α → α) : Nat → α → Option (List α)
  | 0, n => if n = root then some [] else none
  | fuel + 1, n => if n = root then some [] else (climb root parent fuel (parent n)).map (n :: ·)

def childSum (members : List α) (parent : α → α) (f : α → Nat) (n : α) : Nat :=
  tally members (fun c => if parent c = n then f c else 0)

def Accumulates (members : List α) (parent : α → α) (own total : α → Nat) : Prop :=
  ∀ n ∈ members, total n = own n + childSum members parent total n

namespace Forest

variable {members members' chain : List α} {root n : α} {parent parent' : α → α} {fuel : Nat}

omit [DecidableEq α] in
theorem perm (forest : Forest members root parent) (perm : members.Perm members') :
    Forest members' root parent where
  nodup := perm.nodup_iff.mp forest.nodup
  root_out := fun member => forest.root_out (perm.mem_iff.mpr member)
  closed := by
    intro n member
    rcases forest.closed n (perm.mem_iff.mpr member) with isRoot | isMember
    · exact .inl isRoot
    · exact .inr (perm.mem_iff.mp isMember)
  ranked := by
    obtain ⟨depth, deeper⟩ := forest.ranked
    exact ⟨depth, fun n member => deeper n (perm.mem_iff.mpr member)⟩

omit [DecidableEq α] in
theorem parent_ne (forest : Forest members root parent) (member : n ∈ members) :
    parent n ≠ n := by
  obtain ⟨depth, deeper⟩ := forest.ranked
  intro loop
  have lower := deeper n member
  rw [loop] at lower
  omega

omit [DecidableEq α] in
theorem ne_root (forest : Forest members root parent) (member : n ∈ members) :
    n ≠ root :=
  fun isRoot => forest.root_out (isRoot ▸ member)

/-! ### Changes of a forest -/

section

variable (forest : Forest members root parent)

include forest

theorem subdivide {child new : α} (member : child ∈ members) (fresh : new ∉ members)
    (notRoot : new ≠ root) (above : parent' new = parent child) (below : parent' child = new)
    (same : ∀ n ∈ members, n ≠ child → parent' n = parent n) :
    Forest (new :: members) root parent' := by
  obtain ⟨depth, deeper⟩ := forest.ranked
  refine ⟨nodup_cons.mpr ⟨fresh, forest.nodup⟩, ?_, ?_, ?_⟩
  · simp [forest.root_out, notRoot.symm]
  · intro n inNew
    rcases mem_cons.mp inNew with rfl | old
    · rw [above]
      exact (forest.closed child member).imp_right (mem_cons_of_mem _)
    · by_cases isChild : n = child
      · rw [isChild, below]
        exact .inr mem_cons_self
      · rw [same n old isChild]
        exact (forest.closed n old).imp_right (mem_cons_of_mem _)
  · -- all depths double, which leaves room for the new node right above `child`
    refine ⟨fun n => if n = new then 2 * depth child - 1 else 2 * depth n, ?_⟩
    have deeperChild := deeper child member
    have parentOld : ∀ n ∈ members, parent n ≠ new := by
      intro n old isNew
      rcases forest.closed n old with isRoot | isMember
      · exact notRoot (isNew.symm.trans isRoot)
      · exact fresh (isNew ▸ isMember)
    intro n inNew
    rcases mem_cons.mp inNew with rfl | old
    · simp only [if_true, above, if_neg (parentOld child member)]
      omega
    have different : n ≠ new := fun isNew => fresh (isNew ▸ old)
    by_cases isChild : n = child
    · subst isChild
      simp only [below, if_true, if_neg different]
      omega
    · have deeperOld := deeper n old
      simp only [same n old isChild, if_neg different, if_neg (parentOld n old)]
      omega

theorem graft {new : α} (fresh : new ∉ members)
    (notRoot : new ≠ root) (above : parent' new = root ∨ parent' new ∈ members)
    (same : ∀ n ∈ members, parent' n = parent n) : Forest (new :: members) root parent' := by
  obtain ⟨depth, deeper⟩ := forest.ranked
  refine ⟨nodup_cons.mpr ⟨fresh, forest.nodup⟩, ?_, ?_, ?_⟩
  · simp [forest.root_out, notRoot.symm]
  · intro n inNew
    rcases mem_cons.mp inNew with rfl | old
    · exact above.imp_right (mem_cons_of_mem _)
    · rw [same n old]
      exact (forest.closed n old).imp_right (mem_cons_of_mem _)
  · have parentOld : ∀ n, n = root ∨ n ∈ members → n ≠ new := by
      rintro n (isRoot | isMember) isNew
      · exact notRoot (isNew.symm.trans isRoot)
      · exact fresh (isNew ▸ isMember)
    refine ⟨fun n => if n = new then depth (parent' new) + 1 else depth n, ?_⟩
    intro n inNew
    rcases mem_cons.mp inNew with rfl | old
    · simp only [if_neg (parentOld _ above), if_true]
      omega
    · simp only [same n old, if_neg (parentOld _ (.inr old)),
        if_neg (parentOld _ (forest.closed n old))]
      exact deeper n old

theorem prune {leaf : α} (childless : ∀ n ∈ members, parent n ≠ leaf) :
    Forest (members.erase leaf) root parent := by
  obtain ⟨depth, deeper⟩ := forest.ranked
  refine ⟨forest.nodup.erase leaf, fun member => forest.root_out (mem_of_mem_erase member), ?_,
    depth, fun n member => deeper n (mem_of_mem_erase member)⟩
  intro n member
  have old := mem_of_mem_erase member
  rcases forest.closed n old with isRoot | isMember
  · exact .inl isRoot
  · exact .inr ((mem_erase_of_ne (childless n old)).mpr isMember)

end

/-! ### The way to the root -/

theorem climb_root (root : α) (parent : α → α) (fuel : Nat) :
    climb root parent fuel root = some [] := by
  cases fuel <;> simp [climb]

theorem climb_nil (climbed : climb root parent fuel n = some []) : n = root := by
  cases fuel <;> grind [climb, Option.map_eq_some_iff]

/-- A chain starts with its node and goes on with the chain of the parent. -/
theorem climb_cons {m : α} {rest : List α} (climbed : climb root parent fuel n = some (m :: rest)) :
    m = n ∧ n ≠ root ∧
      ∃ fuel', fuel = fuel' + 1 ∧ climb root parent fuel' (parent n) = some rest := by
  cases fuel <;> grind [climb, Option.map_eq_some_iff]

theorem exists_climb (forest : Forest members root parent) (held : n = root ∨ n ∈ members)
    (enough : members.length ≤ fuel) :
    ∃ chain, climb root parent fuel n = some chain := by
  obtain ⟨depth, deeper⟩ := forest.ranked
  -- the members that are not deeper than `n`, of which there are fewer for its parent
  have bounded : ∀ fuel n, (n = root ∨ n ∈ members) →
      (members.filter (depth · ≤ depth n)).length ≤ fuel →
        ∃ chain, climb root parent fuel n = some chain := by
    intro fuel
    induction fuel with
    | zero =>
      intro n held few
      rcases held with rfl | member
      · exact ⟨[], climb_root ..⟩
      · have inFilter : n ∈ members.filter (depth · ≤ depth n) := by simp [member]
        rw [length_eq_zero_iff.mp (Nat.le_zero.mp few)] at inFilter
        cases inFilter
    | succ fuel ih =>
      intro n held few
      by_cases isRoot : n = root
      · exact ⟨[], by rw [isRoot, climb_root]⟩
      have member := held.resolve_left isRoot
      have fewer : (members.filter (depth · ≤ depth (parent n))).length <
          (members.filter (depth · ≤ depth n)).length := by
        have nested : members.filter (depth · ≤ depth (parent n)) =
            (members.filter (depth · ≤ depth n)).filter (depth · ≤ depth (parent n)) := by
          rw [filter_filter]
          apply filter_congr
          intro other _
          have lower := deeper n member
          by_cases below : depth other ≤ depth (parent n)
          · have within : depth other ≤ depth n := by omega
            simp [within]
          · simp [below]
        rw [nested]
        apply length_filter_lt_length_iff_exists.mpr
        exact ⟨n, by simp [member], by simpa using deeper n member⟩
      obtain ⟨rest, above⟩ := ih (parent n) (forest.closed n member) (by omega)
      exact ⟨n :: rest, by rw [climb, if_neg isRoot, above, Option.map_some]⟩
  exact bounded fuel n held (Nat.le_trans (length_filter_le _ _) enough)

theorem climb_induction {motive : α → List α → Prop} (atRoot : motive root [])
    (step : ∀ n rest, n ≠ root → motive (parent n) rest → motive n (n :: rest))
    (climbed : climb root parent fuel n = some chain) : motive n chain := by
  induction chain generalizing n fuel with
  | nil => exact climb_nil climbed ▸ atRoot
  | cons m rest ih =>
    obtain ⟨rfl, notRoot, _, -, above⟩ := climb_cons climbed
    exact step m rest notRoot (ih above)

theorem chain_members (forest : Forest members root parent) (held : n = root ∨ n ∈ members)
    (climbed : climb root parent fuel n = some chain) :
    chain.Nodup ∧ ∀ m ∈ chain, m ∈ members := by
  obtain ⟨depth, deeper⟩ := forest.ranked
  have all : (n = root ∨ n ∈ members) →
      (chain.Nodup ∧ ∀ m ∈ chain, m ∈ members) ∧ ∀ m ∈ chain, depth m ≤ depth n := by
    refine climb_induction (motive := fun n chain => (n = root ∨ n ∈ members) →
      (chain.Nodup ∧ ∀ m ∈ chain, m ∈ members) ∧ ∀ m ∈ chain, depth m ≤ depth n) ?_ ?_ climbed
    · exact fun _ => ⟨⟨nodup_nil, by simp⟩, by simp⟩
    · intro n rest notRoot ih held
      have member := held.resolve_left notRoot
      obtain ⟨⟨nodup, inside⟩, shallow⟩ := ih (forest.closed n member)
      refine ⟨⟨nodup_cons.mpr ⟨?_, nodup⟩, ?_⟩, ?_⟩ <;> grind
  exact (all held).1

theorem countP_parent_chain {m : α} (notRoot : m ≠ root)
    (climbed : climb root parent fuel n = some chain) :
    chain.countP (fun c => parent c = m) = chain.tail.count m := by
  have both : chain.countP (fun c => parent c = m) = chain.tail.count m ∧
      chain.count m = chain.tail.count m + if n = m then 1 else 0 := by
    refine climb_induction (motive := fun n chain =>
      chain.countP (fun c => parent c = m) = chain.tail.count m ∧
        chain.count m = chain.tail.count m + if n = m then 1 else 0) ?_ ?_ climbed
    · simp [notRoot.symm]
    · intro n rest _ ih
      simp only [countP_cons, tail_cons, count_cons, ih.1, ih.2, decide_eq_true_eq,
        beq_iff_eq, true_and]
  exact both.1

end Forest

/-! ### Accumulated counts -/

namespace Accumulates

variable {members members' chain : List α} {root n : α} {parent parent' : α → α}
  {own own' total total' : α → Nat} {fuel : Nat}

theorem perm (accumulates : Accumulates members parent own total) (perm : members.Perm members') :
    Accumulates members' parent own total := by
  intro n member
  rw [accumulates n (perm.mem_iff.mpr member), childSum, childSum, tally_perm perm]

theorem own_le (accumulates : Accumulates members parent own total) (member : n ∈ members) :
    own n ≤ total n := by
  have sum := accumulates n member
  omega

theorem child_le (accumulates : Accumulates members parent own total) {c : α}
    (member : c ∈ members) (parentMember : parent c ∈ members) : total c ≤ total (parent c) := by
  have sum := accumulates (parent c) parentMember
  have part := tally_erase member (fun other => if parent other = parent c then total other else 0)
  simp only [if_true] at part
  rw [childSum] at sum
  omega

theorem chain_pos (accumulates : Accumulates members parent own total)
    (forest : Forest members root parent) (held : n = root ∨ n ∈ members)
    (positive : n ∈ members → 0 < total n) (climbed : climb root parent fuel n = some chain) :
    ∀ m ∈ chain, 0 < total m := by
  have all : (n = root ∨ n ∈ members) → (n ∈ members → 0 < total n) →
      ∀ m ∈ chain, 0 < total m := by
    refine Forest.climb_induction (motive := fun n chain => (n = root ∨ n ∈ members) →
      (n ∈ members → 0 < total n) → ∀ m ∈ chain, 0 < total m) ?_ ?_ climbed
    · simp
    intro n rest notRoot ih held positive m inChain
    have member := held.resolve_left notRoot
    rcases mem_cons.mp inChain with rfl | inRest
    · exact positive member
    · refine ih (forest.closed n member) ?_ m inRest
      intro parentMember
      exact Nat.lt_of_lt_of_le (positive member) (accumulates.child_le member parentMember)
  exact all held positive

theorem childSum_chain (forest : Forest members root parent) {m : α} (held : n = root ∨ n ∈ members)
    (member : m ∈ members) (climbed : climb root parent fuel n = some chain) :
    childSum members parent (fun c => chain.count c) m = chain.tail.count m := by
  obtain ⟨nodup, inside⟩ := forest.chain_members held climbed
  rw [← Forest.countP_parent_chain (forest.ne_root member) climbed, childSum]
  -- only the nodes of the chain count, and each of them once
  have reorder : (members.filter (· ∈ chain)).Perm chain := by
    apply (perm_ext_iff_of_nodup (forest.nodup.filter _) nodup).mpr
    intro c
    simp only [mem_filter, decide_eq_true_eq, and_iff_right_iff_imp]
    exact inside c
  have onChain : ∀ c, (if parent c = m then chain.count c else 0) =
      if c ∈ chain ∧ parent c = m then 1 else 0 := by
    intro c
    by_cases inChain : c ∈ chain
    · simp [inChain, count_eq_one_of_mem nodup inChain]
    · simp [inChain, count_eq_zero_of_not_mem inChain]
  rw [tally_congr (fun c _ => onChain c), ← reorder.countP_eq]
  clear onChain reorder
  generalize members = members'
  induction members' with
  | nil => rfl
  | cons c members ih =>
    rw [tally_cons, ih]
    by_cases inChain : c ∈ chain
    · by_cases isParent : parent c = m
      · simp [inChain, isParent]
        omega
      · simp [inChain, isParent]
    · simp [inChain]

theorem raise_iff (forest : Forest members root parent) (member : n ∈ members)
    (climbed : climb root parent fuel n = some chain)
    (share : ∀ m ∈ members, own' m = own m + if m = n then 1 else 0)
    (counts : ∀ m ∈ members, total' m = total m + chain.count m) :
    Accumulates members parent own' total' ↔ Accumulates members parent own total := by
  have added := fun m inMembers => childSum_chain (m := m) forest (.inr member) inMembers climbed
  obtain _ | ⟨n, rest⟩ := chain
  · exact absurd (Forest.climb_nil climbed) (forest.ne_root member)
  obtain ⟨rfl, -⟩ := Forest.climb_cons climbed
  refine forall₂_congr fun m inMembers => ?_
  have children : childSum members parent total' m =
      childSum members parent total m + rest.count m := by
    have here := added m inMembers
    rw [tail_cons] at here
    rw [← here, childSum, childSum, childSum, ← tally_add]
    apply tally_congr
    intro c inside
    split
    · exact counts c inside
    · rfl
  have split : (n :: rest).count m = (if m = n then 1 else 0) + rest.count m := by
    rw [Nat.add_comm]
    by_cases isStart : m = n
    · simp [isStart]
    · simp [isStart, Ne.symm isStart]
  rw [counts m inMembers, share m inMembers]
  omega

theorem exists_zero_leaf (accumulates : Accumulates members parent own total)
    (forest : Forest members root parent) (member : n ∈ members) (zero : total n = 0) :
    ∃ leaf ∈ members, total leaf = 0 ∧ ∀ c ∈ members, parent c ≠ leaf := by
  obtain ⟨depth, deeper⟩ := forest.ranked
  -- a deepest member with count zero: its children would be deeper ones
  obtain ⟨bound, bounded⟩ : ∃ bound, ∀ m ∈ members, depth m ≤ bound := by
    refine ⟨tally members depth, fun m inside => ?_⟩
    have part := tally_erase inside depth
    omega
  induction gap : bound - depth n using Nat.strongRecOn generalizing n with
  | ind gap ih =>
    by_cases childless : ∀ c ∈ members, parent c ≠ n
    · exact ⟨n, member, zero, childless⟩
    simp only [not_forall, not_not] at childless
    obtain ⟨c, inside, isParent⟩ := childless
    have below := deeper c inside
    have limit := bounded c inside
    rw [isParent] at below
    have zeroChild : total c = 0 := by
      have order := accumulates.child_le inside (isParent ▸ member)
      rw [isParent, zero] at order
      exact Nat.le_zero.mp order
    exact ih (bound - depth c) (by omega) inside zeroChild rfl

/-! ### Changes of the forest -/

section

variable (accumulates : Accumulates members parent own total)

include accumulates

theorem subdivide (forest : Forest members root parent) {child new : α} (member : child ∈ members)
    (fresh : new ∉ members) (notRoot : new ≠ root) (above : parent' new = parent child)
    (below : parent' child = new) (same : ∀ n ∈ members, n ≠ child → parent' n = parent n)
    (ownNew : own' new = 0) (totalNew : total' new = total child)
    (ownSame : ∀ n ∈ members, own' n = own n) (totalSame : ∀ n ∈ members, total' n = total n) :
    Accumulates (new :: members) parent' own' total' := by
  have parentOld : ∀ n ∈ members, parent n ≠ new := by
    intro n old isNew
    rcases forest.closed n old with isRoot | isMember
    · exact notRoot (isNew.symm.trans isRoot)
    · exact fresh (isNew ▸ isMember)
  intro n inNew
  rw [childSum, tally_cons, above]
  rcases mem_cons.mp inNew with rfl | old
  · -- the new node has one child
    rw [if_neg (parentOld child member)]
    have single := tally_single (f := fun c => if parent' c = n then total' c else 0) forest.nodup
      member (fun other inside different => by
        rw [same other inside different, if_neg (parentOld other inside)])
    rw [below, if_pos rfl, totalSame child member] at single
    omega
  have change := tally_change (f := fun c => if parent c = n then total c else 0)
    (g := fun c => if parent' c = n then total' c else 0) forest.nodup member
    (fun other inside different => by
      rw [same other inside different, totalSame other inside])
  have different : new ≠ n := fun isNew => fresh (isNew ▸ old)
  simp only [below, if_neg different] at change
  rw [totalSame n old, ownSame n old, accumulates n old, childSum, totalNew]
  omega

theorem graft (forest : Forest members root parent) {new : α} (fresh : new ∉ members)
    (notRoot : new ≠ root)
    (same : ∀ n ∈ members, parent' n = parent n) (ownNew : own' new = 0) (totalNew : total' new = 0)
    (ownSame : ∀ n ∈ members, own' n = own n) (totalSame : ∀ n ∈ members, total' n = total n) :
    Accumulates (new :: members) parent' own' total' := by
  intro n inNew
  have rest : tally members (fun c => if parent' c = n then total' c else 0) =
      childSum members parent total n := by
    apply tally_congr
    intro c inside
    rw [same c inside, totalSame c inside]
  rw [childSum, tally_cons, rest, totalNew, ite_self, Nat.zero_add]
  rcases mem_cons.mp inNew with rfl | old
  · have none : childSum members parent total n = 0 := by
      apply tally_eq_zero_iff.mpr
      intro c inside
      apply if_neg
      intro isNew
      rcases forest.closed c inside with isRoot | isMember
      · exact notRoot (isNew.symm.trans isRoot)
      · exact fresh (isNew ▸ isMember)
    rw [ownNew, totalNew, none]
  · rw [ownSame n old, totalSame n old, accumulates n old]

theorem prune {leaf : α} (member : leaf ∈ members)
    (zero : total leaf = 0) : Accumulates (members.erase leaf) parent own total := by
  intro n inside
  have old := mem_of_mem_erase inside
  have part := tally_erase member (fun c => if parent c = n then total c else 0)
  simp only [zero, ite_self, Nat.zero_add] at part
  rw [childSum, part]
  exact accumulates n old

end

end Accumulates

end Engram.Lib
