import Engram.Radix.Consistency

/-!
# What a match returns

A run records what its insertions store: for each prefix the last Mamba state inserted for exactly
this prefix, and for each page of a prefix its indices. When all inserted keys are made of whole
pages, the paths of the tree hold what was recorded, and a match returns the longest prefix of its
key with a Mamba state (`match_returns_longest`).
-/

namespace Engram.Radix

open Lib Lib.Transition List

/-! ### The way of an insertion -/

namespace Cache

variable {cfg : CacheConfig} {held : List NodeId} {prevPrefixLen : Nat} {key : RadixKey}
  {value tokens values values' : List Nat}

structure Along (key : RadixKey) (value : List Nat) (tokens values : List Nat)
    (x : Descent × Cache) : Prop where
  path : x.2.tree.Reach key.extraKey rootNode tokens values x.1.node
  spelled : key.tokenIds = tokens ++ x.1.key.tokenIds
  total : x.1.totalPrefixLength = tokens.length
  rest : x.1.value = value.drop tokens.length
  extra : x.1.key.extraKey = key.extraKey

theorem Round.along {x y : Descent × Cache} (round : Round cfg prevPrefixLen x y)
    (before : Descending cfg held x) (aligned : x.2.tree.PageAligned cfg.pageSize)
    (along : Along key value tokens values x) :
    ∃ tokens' values', Along key value tokens' values' y := by
  obtain ⟨child, touched, k, passes⟩ := round
  have childOf : x.2.tree.ChildOf key.extraKey x.1.node child :=
    along.extra ▸ passes.found.childOf
  have middle := before.inv.touched passes.moved
  obtain ⟨-, within, withinKey⟩ := RadixKey.matchLen_of_aligned
    (aligned child passes.found.childOf.member) x.1.key
  rw [← passes.matched] at within withinKey
  have common := RadixKey.take_matchLen cfg.pageSize (x.2.tree.nodes child).key x.1.key
  rw [← passes.matched] at common
  have path := passes.moved.sameTree.reach_of along.path
  have childOf' : touched.ChildOf key.extraKey x.1.node child := by
    refine ⟨passes.moved.full.mem_iff.mpr childOf.member, ?_, ?_⟩
    · rw [passes.moved.nodes, childOf.parent]
    · rw [passes.moved.nodes, childOf.extra]
  -- in both cases the new node spells `k` more tokens of the key
  have reached : ∃ values', y.2.tree.Reach key.extraKey rootNode
      (tokens ++ x.1.key.tokenIds.take k) values' y.1.node := by
    rcases passes.arrives with ⟨-, split, isNew⟩ | ⟨complete, isTree, isChild⟩
    · have upper := (split.reach_of middle.shape path).snoc (split.childOf_new childOf')
      rw [split.key_new, passes.moved.nodes, common] at upper
      rw [isNew]
      exact ⟨_, upper⟩
    have below := path.snoc childOf'
    have whole : (x.2.tree.nodes child).key.length = k := by omega
    rw [passes.moved.nodes, ← take_length (l := (x.2.tree.nodes child).key.tokenIds),
      show (x.2.tree.nodes child).key.tokenIds.length = k from whole, common] at below
    rw [isTree, isChild]
    exact ⟨_, below⟩
  obtain ⟨values', reach⟩ := reached
  have consumed : (tokens ++ x.1.key.tokenIds.take k).length = tokens.length + k := by
    rw [length_append, length_take, Nat.min_eq_left (by exact withinKey)]
  refine ⟨_, values', reach, ?_, ?_, ?_, ?_⟩
  · rw [passes.key, along.spelled, append_assoc]
    exact congrArg (tokens ++ ·) (take_append_drop ..).symm
  · rw [passes.total, along.total, consumed]
  · rw [passes.value, along.rest, drop_drop, consumed]
  · rw [passes.key]
    exact along.extra

theorem along_of_rounds {x y : Descent × Cache}
    (rounds : Relation.ReflTransGen (Round cfg prevPrefixLen) x y) (before : Descending cfg held x)
    (aligned : x.2.tree.PageAligned cfg.pageSize) (along : Along key value tokens values x) :
    ∃ tokens' values', Along key value tokens' values' y := by
  have all : Descending cfg held y ∧ ∃ tokens' values', Along key value tokens' values' y := by
    induction rounds with
    | refl => exact ⟨before, tokens, values, along⟩
    | tail earlier round ih =>
      obtain ⟨middle, tokens', values', along'⟩ := ih
      exact ⟨round.descending middle, round.along middle
        ((reshaped_of_rounds earlier).pageAligned aligned) along'⟩
  exact all.2

theorem Along.no_path_beyond {d : Descent} {middle : Cache}
    (along : Along key value tokens values (d, middle)) (inv : middle.tree.Inv cfg.pageSize held)
    (aligned : middle.tree.PageAligned cfg.pageSize)
    (vacant : (middle.tree.nodes d.node).children.lookup (d.key.childKey cfg.pageSize) = none)
    {spelled : List Nat} {n : NodeId} {len : Nat}
    (reach : middle.tree.Reach key.extraKey rootNode spelled values' n)
    (within : spelled.take len <+: key.tokenIds) (inside : len ≤ spelled.length)
    (beyond : tokens.length < len) (divides : cfg.pageSize ∣ len) : False := by
  have length : (spelled.take len).length = len := by
    rw [length_take, Nat.min_eq_left inside]
  have whole : tokens ++ d.key.tokenIds = key.tokenIds := along.spelled.symm
  -- both follow the key, so the path goes on from where the insertion stopped
  obtain ⟨page, isPage⟩ : tokens <+: spelled.take len := by
    apply prefix_of_prefix_length_le (whole ▸ prefix_append ..) within
    omega
  obtain ⟨rest, isRest⟩ := take_prefix len spelled
  rw [← isPage, append_assoc] at isRest
  rw [← isRest] at reach
  obtain ⟨_, below, -⟩ := Tree.Reach.tail inv.shape aligned along.path reach
  have fits : cfg.pageSize ≤ page.length := by
    have consumed := along.path.dvd_length aligned
    have lengths : tokens.length + page.length = len := by
      rw [← length_append, isPage, length]
    have gap : cfg.pageSize ∣ page.length := by
      have difference := Nat.dvd_sub divides consumed
      rwa [← lengths, Nat.add_sub_cancel_left] at difference
    exact Nat.le_of_dvd (by omega) gap
  have follows : page <+: d.key.tokenIds := by
    rw [← isPage, ← whole, prefix_append_right_inj] at within
    exact within
  have nonempty : page ++ rest ≠ [] := by
    intro empty
    have positive := cfg.positive
    rw [(append_eq_nil_iff.mp empty).1, length_nil] at fits
    omega
  -- the next node on the path is a child under the first page of the rest
  obtain ⟨c, child, begins⟩ := below.exists_child nonempty
  have childPage : cfg.pageSize ≤ (middle.tree.nodes c).key.tokenIds.length :=
    Nat.le_of_dvd (length_pos_iff.mpr (inv.shape.keyed c child.member).1)
      (aligned c child.member)
  have sameKey : (middle.tree.nodes c).key.childKey cfg.pageSize = d.key.childKey cfg.pageSize := by
    obtain ⟨tail, isTail⟩ := begins
    obtain ⟨tail', isTail'⟩ := follows
    have first := congrArg (take cfg.pageSize) isTail
    rw [take_append_of_le_length childPage, take_append_of_le_length fits] at first
    rw [RadixKey.childKey, RadixKey.childKey, child.extra, along.extra, first, ← isTail',
      take_append_of_le_length fits]
  -- but the lookup under this page has found nothing
  have listed := inv.shape.listed c child.member
  rw [child.parent, sameKey, vacant] at listed
  cases listed

end Cache

/-! ### Prefixes with a state -/

namespace Tree

variable {pageSize : Nat} {held : List NodeId} {t t' : Tree} {extraKey : Option String}
  {tokens : List Nat}

def HasState (t : Tree) (extraKey : Option String) (tokens : List Nat) : Prop :=
  ∃ values n, t.Reach extraKey rootNode tokens values n ∧ (t.nodes n).mambaValue.isSome = true

theorem Reshaped.hasState_iff (reshaped : t.Reshaped pageSize t') (positive : 0 < pageSize)
    (inv : t.Inv pageSize held) : t'.HasState extraKey tokens ↔ t.HasState extraKey tokens := by
  induction reshaped with
  | refl => exact Iff.rfl
  | touched _ touched ih =>
    rw [← ih]
    simp only [HasState, touched.sameTree.reach_iff, touched.nodes]
  | split before split ih =>
    rw [← ih]
    have shape := (before.inv positive inv).shape
    constructor
    · rintro ⟨values, n, reach, hasState⟩
      rw [split.mambaValue] at hasState
      rcases split.reach_cases shape reach with ⟨notNew, old⟩ | ⟨isNew, -⟩
      · rw [if_neg notNew] at hasState
        exact ⟨values, n, old, hasState⟩
      · rw [if_pos isNew] at hasState
        cases hasState
    · rintro ⟨values, n, reach, hasState⟩
      refine ⟨values, n, split.reach_of shape reach, ?_⟩
      rw [split.mambaValue, if_neg (shape.ne_new (reach.has (.inl rfl)))]
      exact hasState

theorem not_hasState_reset : ¬Tree.reset.HasState extraKey tokens := by
  rintro ⟨values, n, reach, hasState⟩
  rcases reach.snoc_cases with ⟨rfl, -⟩ | ⟨_, _, _, -, child, -⟩
  · cases hasState
  · cases child.member

end Tree

variable {held kvs mambas : List NodeId} {c c' : Cache} {key : RadixKey} {cow : Option (Option Nat)}
  {tokens : List Nat}

theorem Cache.Answers.longest {cfg : CacheConfig} {found : Tree.Found} {middle : Tree}
    {result : MatchResult} (answers : Answers cfg held c key cow found middle kvs mambas result c')
    (inv : c.tree.Inv cfg.pageSize held) (aligned : c.tree.PageAligned cfg.pageSize)
    (path : middle.Reach key.extraKey rootNode tokens result.deviceIndices result.lastDeviceNode)
    (longer : List Nat) (within : longer <+: key.tokenIds)
    (hasState : c.tree.HasState key.extraKey longer) : longer.length ≤ tokens.length := by
  obtain ⟨values, n, reach, state⟩ := (answers.reshaped.hasState_iff cfg.positive inv).mpr hasState
  have bound := answers.covers aligned longer values n reach within state
  rw [← answers.indices, path.length_eq (answers.reshaped.inv cfg.positive inv).shape] at bound
  exact bound

namespace Cache.Drops

variable {cfg : CacheConfig} {c c' : Cache} {kvs mambas : List NodeId} {extraKey : Option String}
  {tokens values : List Nat} {n : NodeId}

section

variable (drops : Drops cfg c kvs mambas c')

include drops

theorem reach_old (reach : c'.tree.Reach extraKey rootNode tokens values n) :
    c.tree.Reach extraKey rootNode tokens values n := by
  apply reach.transfer
  · exact fun m member => (drops.mem_full_iff.mp member).1
  · exact fun m _ => ⟨(drops.parent m).symm, (drops.key m).symm, (drops.value m).symm⟩

theorem state_old (mambaLists : c'.tree.Mambas)
    (reach : c'.tree.Reach extraKey rootNode tokens values n)
    (hasState : (c'.tree.nodes n).mambaValue.isSome = true) :
    (c'.tree.nodes n).mambaValue = (c.tree.nodes n).mambaValue := by
  apply drops.states
  intro victim
  have listed : n ∈ c'.tree.mambaLruList := by
    rw [mambaLists.listed]
    refine ⟨(reach.has (.inl rfl)).resolve_left ?_, hasState⟩
    rintro rfl
    rw [mambaLists.root] at hasState
    cases hasState
  exact (drops.mem_mamba_iff.mp listed).2 victim

theorem hasState_old (mambaLists : c'.tree.Mambas)
    (hasState : c'.tree.HasState extraKey tokens) : c.tree.HasState extraKey tokens := by
  obtain ⟨values, n, reach, state⟩ := hasState
  refine ⟨values, n, drops.reach_old reach, ?_⟩
  rw [← drops.state_old mambaLists reach state]
  exact state

end

end Cache.Drops

theorem Cache.Wanes.hasState_old {cfg : CacheConfig} {extraKey : Option String}
    (wanes : c.Wanes cfg c') (inv : c.tree.Inv cfg.pageSize held) (mambaLists : c'.tree.Mambas)
    (hasState : c'.tree.HasState extraKey tokens) : c.tree.HasState extraKey tokens := by
  obtain ⟨middle, kvs, mambas, slots, reshaped, drops⟩ := wanes
  exact (reshaped.hasState_iff cfg.positive inv).mp (drops.hasState_old mambaLists hasState)

/-! ### What is recorded -/

/-- A cache in use, with what its insertions have stored. -/
structure Recorded where
  use : InUse
  /-- the last state that was stored for exactly these tokens -/
  states : Option String → List Nat → Option Nat := fun _ _ => none
  /-- the indices that were stored last for the last page of these tokens -/
  pages : Option String → List Nat → List Nat := fun _ _ => []

namespace Recorded

variable (cfg : CacheConfig)

def storeState (states : Option String → List Nat → Option Nat) (key : RadixKey) (slot : Nat)
    (mambaExist : Bool) (extraKey : Option String) (tokens : List Nat) : Option Nat :=
  if mambaExist = false ∧ extraKey = key.extraKey ∧ tokens = key.tokenIds then some slot
  else states extraKey tokens

def storePages (pageSize : Nat) (pages : Option String → List Nat → List Nat) (key : RadixKey)
    (value : List Nat) (prefixLen : Nat) (extraKey : Option String) (tokens : List Nat) :
    List Nat :=
  if prefixLen < tokens.length ∧ extraKey = key.extraKey ∧ tokens <+: key.tokenIds then
    (value.drop (tokens.length - pageSize)).take pageSize
  else pages extraKey tokens

def step (s : Recorded) (op : Op) : Except Failure Recorded :=
  match op with
  | .insert key value mambaValue prevPrefixLen _ => do
    let (result, cache) ← s.use.cache.insert cfg key value mambaValue prevPrefixLen
    .ok {
      use := { s.use with cache }
      states := storeState s.states key mambaValue result.mambaExist
      pages := storePages cfg.pageSize s.pages key value result.prefixLen }
  | op => do
    let use ← s.use.step cfg op
    .ok { s with use }

def reset (numPages size : Nat) : Recorded where
  use := .reset numPages size

def WholePages : Op → Prop
  | .insert key _ _ _ _ => key.Aligned cfg.pageSize
  | _ => True

/-- Locks as before, and whole pages. -/
def Allowed (s : Recorded) (op : Op) : Prop :=
  s.use.Current op ∧ WholePages cfg op

def indicesOf (s : Recorded) (extraKey : Option String) (tokens : List Nat) : List Nat :=
  (List.range (tokens.length / cfg.pageSize)).flatMap fun j =>
    s.pages extraKey (tokens.take ((j + 1) * cfg.pageSize))

def Keeps (pageSize : Nat) (pages : Option String → List Nat → List Nat)
    (extraKey : Option String) (tokens values : List Nat) : Prop :=
  ∀ j, (j + 1) * pageSize ≤ tokens.length →
    (values.drop (j * pageSize)).take pageSize = pages extraKey (tokens.take ((j + 1) * pageSize))

structure Faithful (pageSize : Nat) (states : Option String → List Nat → Option Nat)
    (pages : Option String → List Nat → List Nat) (t : Tree) : Prop where
  aligned : t.PageAligned pageSize
  keeps : ∀ extraKey tokens values n, t.Reach extraKey rootNode tokens values n →
    Keeps pageSize pages extraKey tokens values
  state : ∀ extraKey tokens values n slot, t.Reach extraKey rootNode tokens values n →
    (t.nodes n).mambaValue = some slot → states extraKey tokens = some slot

variable {cfg} {pageSize : Nat} {states : Option String → List Nat → Option Nat}
  {pages : Option String → List Nat → List Nat} {t t' : Tree} {extraKey : Option String}
  {tokens values values' : List Nat} {s s' : Recorded} {op : Op} {result : Cache.MatchResult}

theorem Keeps.beginning {tokens' : List Nat}
    (keeps : Keeps pageSize pages extraKey (tokens ++ tokens') (values ++ values'))
    (lengths : values.length = tokens.length) : Keeps pageSize pages extraKey tokens values := by
  intro j inside
  have longer : (j + 1) * pageSize ≤ (tokens ++ tokens').length := by
    rw [length_append]
    omega
  have page := keeps j longer
  have fits : j * pageSize + pageSize ≤ values.length := by
    rw [lengths, ← Nat.succ_mul]
    exact inside
  rw [take_append_of_le_length inside, drop_append_of_le_length (by omega),
    take_append_of_le_length (by rw [length_drop]; omega)] at page
  exact page

namespace Faithful

section

variable (faithful : Faithful pageSize states pages t)

include faithful

theorem touched (touched : t.Touched t') :
    Faithful pageSize states pages t' where
  aligned := touched.sameTree.pageAligned faithful.aligned
  keeps := fun extraKey tokens values n reach =>
    faithful.keeps extraKey tokens values n (touched.sameTree.reach_iff.mp reach)
  state := by
    intro extraKey tokens values n slot reach hasState
    rw [touched.nodes] at hasState
    exact faithful.state extraKey tokens values n slot
      (touched.sameTree.reach_iff.mp reach) hasState

theorem split {child : NodeId} {k : Nat} (shape : t.Shape pageSize)
    (split : t.Split pageSize child k t') (divides : pageSize ∣ k) :
    Faithful pageSize states pages t' where
  aligned := split.pageAligned faithful.aligned divides
  keeps := by
    intro extraKey tokens values n reach
    rcases split.reach_cases shape reach with ⟨-, old⟩ |
      ⟨-, tokens₀, values₀, above, child', rfl, rfl⟩
    · exact faithful.keeps extraKey tokens values n old
    -- the path to the upper half is the beginning of the old path to the child
    have whole := faithful.keeps extraKey _ _ child (above.snoc child')
    rw [← take_append_drop k (t.nodes child).key.tokenIds,
      ← take_append_drop k (t.nodes child).value, ← append_assoc, ← append_assoc] at whole
    apply whole.beginning
    have lengths := above.length_eq shape
    have childLengths : (t.nodes child).value.length = (t.nodes child).key.tokenIds.length :=
      (shape.keyed child split.member).2
    rw [length_append, length_append, length_take, length_take, lengths, childLengths]
  state := by
    intro extraKey tokens values n slot reach hasState
    rw [split.mambaValue] at hasState
    rcases split.reach_cases shape reach with ⟨notNew, old⟩ | ⟨isNew, -⟩
    · rw [if_neg notNew] at hasState
      exact faithful.state extraKey tokens values n slot old hasState
    · rw [if_pos isNew] at hasState
      cases hasState

theorem reshaped (inv : t.Inv pageSize held) (positive : 0 < pageSize)
    (reshaped : t.Reshaped pageSize t') :
    Faithful pageSize states pages t' := by
  induction reshaped with
  | refl => exact faithful
  | touched _ touched ih => exact ih.touched touched
  | split before split ih =>
    exact ih.split (before.inv positive inv).shape split
      (RadixKey.matchLen_of_aligned (ih.aligned _ split.member) _).1

end

theorem drops (faithful : Faithful cfg.pageSize states pages c.tree)
    (drops : Cache.Drops cfg c kvs mambas c') (mambaLists : c'.tree.Mambas) :
    Faithful cfg.pageSize states pages c'.tree := by
  refine ⟨?_, ?_, ?_⟩
  · intro n member
    rw [drops.key]
    exact faithful.aligned n (drops.mem_full_iff.mp member).1
  · exact fun extraKey tokens values n reach =>
      faithful.keeps extraKey tokens values n (drops.reach_old reach)
  · intro extraKey tokens values n slot reach hasState
    rw [drops.state_old mambaLists reach (by rw [hasState]; rfl)] at hasState
    exact faithful.state extraKey tokens values n slot (drops.reach_old reach) hasState

/-! ### Insertions -/

section Insertion

variable {held : List NodeId} {key : RadixKey} {value : List Nat} {slot : Nat}
  {d : Cache.Descent} {middle : Cache}

theorem storePages_whole {prefixLen : Nat} (whole : key.tokenIds.length ≤ prefixLen) :
    storePages pageSize pages key value prefixLen = pages := by
  funext extraKey tokens
  rw [storePages, if_neg]
  rintro ⟨beyond, -, within⟩
  have fits := within.length_le
  omega

theorem whole_key (along : Cache.Along key value tokens values (d, middle))
    (empty : d.key.length = 0) : tokens = key.tokenIds := by
  have nothing : d.key.tokenIds = [] := eq_nil_of_length_eq_zero empty
  have spelled := along.spelled
  rw [show (d, middle).1.key.tokenIds = [] from nothing, append_nil] at spelled
  exact spelled.symm

theorem revived (faithful : Faithful cfg.pageSize states pages middle.tree)
    (inv : middle.tree.Inv cfg.pageSize held)
    (along : Cache.Along key value tokens values (d, middle)) (empty : d.key.length = 0)
    (revived : middle.tree.Revived d.node slot t') :
    Faithful cfg.pageSize (storeState states key slot false) pages t' where
  aligned := revived.set.sameTree.pageAligned faithful.aligned
  keeps := fun extraKey tokens values n reach =>
    faithful.keeps extraKey tokens values n (revived.set.sameTree.reach_iff.mp reach)
  state := by
    intro extraKey spelled values' n slot' reach hasState
    have old := revived.set.sameTree.reach_iff.mp reach
    have path := along.path
    rw [whole_key along empty] at path
    have notRoot : d.node ≠ rootNode := inv.shape.forest.ne_root revived.member
    rw [revived.set.nodes] at hasState
    by_cases same : n = d.node
    · -- the node has only one path, and it is the key
      subst same
      rw [Function.update_self, Option.some.injEq] at hasState
      have sameExtra : extraKey = key.extraKey :=
        (old.extra notRoot).symm.trans (path.extra notRoot)
      subst sameExtra
      obtain ⟨rfl, -⟩ := old.unique inv.shape path
      rw [storeState, if_pos ⟨rfl, rfl, rfl⟩, hasState]
    · rw [Function.update_of_ne same] at hasState
      rw [storeState, if_neg]
      · exact faithful.state extraKey spelled values' n slot' old hasState
      · rintro ⟨-, rfl, rfl⟩
        exact same (path.node_unique inv.shape faithful.aligned old)

theorem path_of_new (inv : middle.tree.Inv cfg.pageSize held)
    (along : Cache.Along key value tokens values (d, middle))
    (grown : middle.tree.Grown cfg.pageSize d.node d.key d.value slot t') {spelled : List Nat}
    {n : NodeId} (reach : t'.Reach extraKey rootNode spelled values' n) :
    (n ≠ middle.tree.nextId ∧ middle.tree.Reach extraKey rootNode spelled values' n) ∨
      (n = middle.tree.nextId ∧ extraKey = key.extraKey ∧ spelled = key.tokenIds ∧
        values' = values ++ value.drop tokens.length) := by
  refine (grown.reach_cases inv.shape reach).imp_right ?_
  rintro ⟨isNew, sameExtra, tokens₀, values₀, above, rfl, rfl⟩
  have isExtra : key.extraKey = extraKey := along.extra.symm.trans sameExtra
  subst isExtra
  obtain ⟨rfl, rfl⟩ := above.unique inv.shape along.path
  exact ⟨isNew, rfl, along.spelled.symm, congrArg (values₀ ++ ·) along.rest⟩

theorem keeps_new (aligned : middle.tree.PageAligned cfg.pageSize)
    (inv : middle.tree.Inv cfg.pageSize held)
    (along : Cache.Along key value tokens values (d, middle))
    (above : Keeps cfg.pageSize pages key.extraKey tokens values) :
    Keeps cfg.pageSize (storePages cfg.pageSize pages key value tokens.length) key.extraKey
      key.tokenIds (values ++ value.drop tokens.length) := by
  intro j inside
  have lengths : values.length = tokens.length := along.path.length_eq inv.shape
  have page : ((key.tokenIds).take ((j + 1) * cfg.pageSize)).length = (j + 1) * cfg.pageSize := by
    rw [length_take, Nat.min_eq_left inside]
  have next : (j + 1) * cfg.pageSize = j * cfg.pageSize + cfg.pageSize := Nat.succ_mul ..
  rcases Nat.lt_or_ge tokens.length ((j + 1) * cfg.pageSize) with beyond | shared
  · -- the path above is made of whole pages, so this one lies behind it altogether
    obtain ⟨pagesAbove, isPages⟩ := along.path.dvd_length aligned
    have behind : tokens.length ≤ j * cfg.pageSize := by
      rw [isPages, Nat.mul_comm] at beyond ⊢
      exact Nat.mul_le_mul_right _ (Nat.le_of_lt_succ (Nat.lt_of_mul_lt_mul_right beyond))
    rw [storePages, if_pos ⟨by rw [page]; exact beyond, rfl, take_prefix ..⟩, page, next,
      Nat.add_sub_cancel, drop_append, drop_of_length_le (by omega), nil_append,
      drop_drop, lengths, Nat.add_sub_cancel' behind]
  have old := above j shared
  have fits : (values.drop (j * cfg.pageSize)).length ≥ cfg.pageSize := by
    rw [length_drop]
    omega
  rw [storePages, if_neg (fun stored => by omega),
    drop_append_of_le_length (by omega), take_append_of_le_length fits, old,
    along.spelled, take_append_of_le_length shared]

theorem grown (faithful : Faithful cfg.pageSize states pages middle.tree)
    (inv : middle.tree.Inv cfg.pageSize held) (alignedKey : key.Aligned cfg.pageSize)
    (along : Cache.Along key value tokens values (d, middle))
    (grown : middle.tree.Grown cfg.pageSize d.node d.key d.value slot t') :
    Faithful cfg.pageSize (storeState states key slot false)
      (storePages cfg.pageSize pages key value tokens.length) t' := by
  have total : key.tokenIds.length = tokens.length + d.key.tokenIds.length := by
    rw [along.spelled, length_append]
  refine ⟨?_, ?_, ?_⟩
  · intro n member
    rcases mem_cons.mp (grown.full.mem_iff.mp member) with rfl | old
    · rw [grown.new]
      have rest := Nat.dvd_sub alignedKey (along.path.dvd_length faithful.aligned)
      rwa [RadixKey.length, total, Nat.add_sub_cancel_left] at rest
    · rw [(grown.old (inv.shape.ne_new (.inr old))).2.1]
      exact faithful.aligned n old
  · intro extraKey spelled values' n reach
    rcases path_of_new inv along grown reach with ⟨-, old⟩ | ⟨-, rfl, rfl, rfl⟩
    · intro j inside
      have length : (spelled.take ((j + 1) * cfg.pageSize)).length = (j + 1) * cfg.pageSize := by
        rw [length_take, Nat.min_eq_left inside]
      rw [faithful.keeps extraKey spelled values' n old j inside, storePages, if_neg]
      -- no old path has a page of the key beyond the walk
      rintro ⟨beyond, rfl, within⟩
      rw [length] at beyond
      exact along.no_path_beyond inv faithful.aligned grown.vacant old within inside beyond
        (Nat.dvd_mul_left ..)
    · exact keeps_new faithful.aligned inv along
        (faithful.keeps key.extraKey tokens values d.node along.path)
  · intro extraKey spelled values' n slot' reach hasState
    rcases path_of_new inv along grown reach with ⟨notNew, old⟩ | ⟨rfl, rfl, rfl, -⟩
    · rw [(grown.old notNew).2.2.2.1] at hasState
      rw [storeState, if_neg]
      · exact faithful.state extraKey spelled values' n slot' old hasState
      · rintro ⟨-, rfl, rfl⟩
        have positive := length_pos_iff.mpr grown.nonempty
        refine along.no_path_beyond inv faithful.aligned grown.vacant old
          ⟨_, take_append_drop key.tokenIds.length _⟩ (Nat.le_refl _) ?_ alignedKey
        omega
    · rw [grown.new, Option.some.injEq] at hasState
      rw [storeState, if_pos ⟨rfl, rfl, rfl⟩, hasState]

theorem inserts {prevPrefixLen : Nat} {result : Cache.InsertResult}
    (faithful : Faithful cfg.pageSize states pages c.tree) (sound : c.tree.Inv cfg.pageSize held)
    (leaves : c.tree.Leaves) (lengths : value.length = key.length) (someKey : key.length ≠ 0)
    (alignedKey : key.Aligned cfg.pageSize)
    (inserts : Cache.Inserts cfg held c key value slot prevPrefixLen d middle result c') :
    Faithful cfg.pageSize (storeState states key slot result.mambaExist)
      (storePages cfg.pageSize pages key value result.prefixLen) c'.tree := by
  have start : Cache.Along key value [] [] (⟨rootNode, key, value, 0⟩, c) :=
    ⟨.here rootNode, rfl, rfl, rfl, rfl⟩
  have begins : Cache.Descending cfg held (⟨rootNode, key, value, 0⟩, c) :=
    ⟨sound, leaves, .inl rfl, fun notRoot => absurd rfl notRoot, lengths,
      fun empty => absurd empty someKey⟩
  obtain ⟨tokens, values, along⟩ :=
    Cache.along_of_rounds inserts.rounds begins faithful.aligned start
  have atStop := faithful.reshaped sound cfg.positive (Cache.reshaped_of_rounds inserts.rounds)
  have inv := inserts.reached.inv
  have isLength : result.prefixLen = tokens.length := inserts.prefixLen.trans along.total
  have finishes := inserts.finishes
  rw [isLength]
  generalize result.mambaExist = mambaExist at finishes ⊢
  cases finishes with
  | grown grown => exact atStop.grown inv alignedKey along grown
  | revived empty revived =>
    rw [whole_key along empty, storePages_whole (Nat.le_refl _)]
    exact atStop.revived inv along empty revived
  | present empty _ _ touched =>
    rw [whole_key along empty, storePages_whole (Nat.le_refl _)]
    exact atStop.touched touched

end Insertion

end Faithful

/-! ### Runs -/

variable (cfg) in
structure Sound (s : Recorded) : Prop where
  use : s.use.Sound cfg
  faithful : Faithful cfg.pageSize s.states s.pages s.use.cache.tree

theorem faithful_reset (positive : 0 < pageSize) : Faithful pageSize states pages .reset where
  aligned := fun _ member => absurd member not_mem_nil
  keeps := by
    intro extraKey tokens values n reach j inside
    rcases reach.snoc_cases with ⟨-, rfl, -⟩ | ⟨_, _, _, -, child, -⟩
    · have page : pageSize ≤ (j + 1) * pageSize := Nat.le_mul_of_pos_left _ j.succ_pos
      rw [length_nil] at inside
      omega
    · cases child.member
  state := by
    intro extraKey tokens values n slot reach hasState
    rcases reach.snoc_cases with ⟨rfl, -⟩ | ⟨_, _, _, -, child, -⟩
    · cases hasState
    · cases child.member

theorem reset_sound (numPages size : Nat) : (reset numPages size).Sound cfg :=
  ⟨InUse.reset_sound numPages size, faithful_reset cfg.positive⟩

theorem step_use (stepped : s.step cfg op = .ok s') :
    s.use.step cfg op = .ok s'.use := by
  cases op with
  | insert key value mambaValue prevPrefixLen lengths =>
    obtain ⟨⟨result, c'⟩, inserted, isNext⟩ := bind_ok stepped
    cases isNext
    rw [InUse.step, inserted]
    rfl
  | _ =>
    obtain ⟨use, used, isNext⟩ := bind_ok stepped
    cases isNext
    exact used

theorem step_records (stepped : s.step cfg op = .ok s') (storesNothing : ¬op.Stores) :
    s'.states = s.states ∧ s'.pages = s.pages := by
  cases op with
  | insert => exact absurd trivial storesNothing
  | _ =>
    obtain ⟨use, used, isNext⟩ := bind_ok stepped
    cases isNext
    exact ⟨rfl, rfl⟩

theorem Faithful.wanes (faithful : Faithful cfg.pageSize states pages c.tree)
    (inv : c.tree.Inv cfg.pageSize held) (wanes : c.Wanes cfg c') (mambaLists : c'.tree.Mambas) :
    Faithful cfg.pageSize states pages c'.tree := by
  obtain ⟨middle, kvs, mambas, slots, reshaped, drops⟩ := wanes
  have atMiddle := faithful.reshaped inv cfg.positive reshaped
  have kept : Faithful cfg.pageSize states pages ({ c' with freeSlots := slots } : Cache).tree :=
    atMiddle.drops drops mambaLists
  exact kept

theorem step_sound (sound : s.Sound cfg) (allowed : s.Allowed cfg op)
    (stepped : s.step cfg op = .ok s') : s'.Sound cfg := by
  have used := step_use stepped
  have next : s'.use.Sound cfg := by
    rcases InUse.step_sound sound.use allowed.1 with ⟨use, isUse, soundUse⟩ | ⟨-, failed⟩
    · rw [used] at isUse
      cases isUse
      exact soundUse
    · rw [used] at failed
      cases failed
  refine ⟨next, ?_⟩
  cases disabled : cfg.disable with
  | true =>
    rw [next.disabled disabled]
    exact faithful_reset cfg.positive
  | false =>
    rcases InUse.step_enabled sound.use allowed.1 disabled with
      ⟨use, isUse, inv, -, change⟩ | ⟨-, failed⟩
    · rw [used] at isUse
      cases isUse
      by_cases stores : op.Stores
      · cases op with
        | insert key value mambaValue prevPrefixLen lengths =>
          obtain ⟨⟨result, c'⟩, inserted, isNext⟩ := bind_ok stepped
          cases isNext
          by_cases empty : key.length = 0
          · -- an empty key stores nothing
            rw [Cache.insert, disabled, if_pos empty] at inserted
            cases inserted
            rw [Faithful.storePages_whole (Nat.le_of_eq empty)]
            exact sound.faithful
          obtain ⟨result', c'', d, middle, inserted', inserts⟩ := Cache.insert_ok mambaValue
            prevPrefixLen disabled empty lengths sound.use.inv sound.use.leaves
          rw [inserted] at inserted'
          cases inserted'
          exact sound.faithful.inserts sound.use.inv sound.use.leaves lengths empty allowed.2
            inserts
        | _ => cases stores
      · -- the other operations only take away
        obtain ⟨sameStates, samePages⟩ := step_records stepped stores
        rw [sameStates, samePages]
        exact sound.faithful.wanes sound.use.inv (change.resolve_left stores) inv.mambas
    · rw [used] at failed
      cases failed

/-- Along every run with whole pages the tree holds what is recorded. -/
theorem run_sound {numPages size : Nat} {ops : List Op}
    (allowed : Admissible (step cfg) (Allowed cfg) (reset numPages size) ops)
    (reached : run (step cfg) (reset numPages size) ops = .ok s) : s.Sound cfg :=
  run_invariant (fun _ _ _ sound allowed stepped => step_sound sound allowed stepped) ops _ s
    (reset_sound numPages size) allowed reached

/-! ### Matches -/

/-- What a match of `key` returns: for the longest prefix of the key with a Mamba state, the
    indices recorded for it and the node that holds the state recorded for it. -/
structure Longest (cfg : CacheConfig) (s : Recorded) (key : RadixKey)
    (result : Cache.MatchResult) (c' : Cache) (tokens : List Nat) : Prop where
  within : tokens <+: key.tokenIds
  path : c'.tree.Reach key.extraKey rootNode tokens result.deviceIndices result.lastDeviceNode
  indices : result.deviceIndices = s.indicesOf cfg key.extraKey tokens
  state : (tokens = [] ∧ result.lastDeviceNode = rootNode) ∨
    ∃ slot, (c'.tree.nodes result.lastDeviceNode).mambaValue = some slot ∧
      s.states key.extraKey tokens = some slot
  longest : ∀ longer, longer <+: key.tokenIds →
    s.use.cache.tree.HasState key.extraKey longer ∨ c'.tree.HasState key.extraKey longer →
    longer.length ≤ tokens.length
  root : (∀ spelled, spelled <+: key.tokenIds →
      ¬s.use.cache.tree.HasState key.extraKey spelled) →
    result.deviceIndices = [] ∧ result.lastDeviceNode = rootNode

theorem flatMap_pages (pageSize : Nat) (values : List Nat) (len : Nat) :
    (List.range len).flatMap (fun j => (values.drop (j * pageSize)).take pageSize) =
      values.take (len * pageSize) := by
  induction len with
  | zero => rw [range_zero, flatMap_nil, Nat.zero_mul, take_zero]
  | succ len ih =>
    rw [range_succ, flatMap_append, ih, flatMap_singleton, Nat.succ_mul, take_add]

theorem Keeps.indices (aligned : cfg.pageSize ∣ tokens.length)
    (lengths : values.length = tokens.length)
    (keeps : Keeps cfg.pageSize s.pages extraKey tokens values) :
    values = s.indicesOf cfg extraKey tokens := by
  obtain ⟨len, isLength⟩ := aligned
  rw [Nat.mul_comm] at isLength
  have whole := flatMap_pages cfg.pageSize values len
  rw [take_of_length_le (by rw [lengths, isLength])] at whole
  rw [indicesOf, isLength, Nat.mul_div_cancel _ cfg.positive]
  refine whole.symm.trans (flatMap_congr fun j inside => keeps j ?_)
  rw [isLength]
  exact Nat.mul_le_mul_right _ (mem_range.mp inside)

theorem answers_longest {found : Tree.Found} {middle : Tree} (sound : s.Sound cfg)
    (answers : Cache.Answers cfg s.use.held s.use.cache key cow found middle kvs mambas result c') :
    ∃ tokens, Longest cfg s key result c' tokens := by
  have inv := sound.use.inv
  have faithful : Faithful cfg.pageSize s.states s.pages c'.tree :=
    sound.faithful.wanes inv answers.wanes answers.inv.mambas
  obtain ⟨tokens, within, path, after⟩ := answers.path inv
  have covers := answers.longest inv sound.faithful.aligned path
  refine ⟨tokens, within, after, ?_, ?_, ?_, ?_⟩
  · exact (faithful.keeps _ _ _ _ after).indices (after.dvd_length faithful.aligned)
      (after.length_eq answers.inv.shape)
  · rcases answers.lockable with isRoot | ⟨-, hasState⟩
    · rw [isRoot] at after
      exact .inl ⟨(after.unique answers.inv.shape (.here rootNode)).1, isRoot⟩
    · obtain ⟨slot, isSlot⟩ := Option.isSome_iff_exists.mp hasState
      exact .inr ⟨slot, isSlot, faithful.state _ _ _ _ slot after isSlot⟩
  · rintro longer inside (before | afterwards)
    · exact covers longer inside before
    · exact covers longer inside (answers.wanes.hasState_old inv answers.inv.mambas afterwards)
  · intro none
    rcases answers.lockable with isRoot | ⟨-, hasState⟩
    · rw [isRoot] at after
      exact ⟨(after.unique answers.inv.shape (.here rootNode)).2, isRoot⟩
    · -- the state of the node was there before the match
      have before := answers.wanes.hasState_old inv answers.inv.mambas ⟨_, _, after, hasState⟩
      exact absurd before (none tokens within)

theorem not_hasState_nil (inv : t.Inv pageSize held) :
    ¬t.HasState extraKey [] := by
  rintro ⟨values, n, reach, hasState⟩
  rw [reach.eq_of_nil inv.shape, inv.mambas.root] at hasState
  cases hasState

theorem untried_longest (sound : s.Sound cfg) (untried : cfg.disable = true ∨ key.length = 0)
    (nothing : result.deviceIndices = [] ∧ result.lastDeviceNode = rootNode) :
    Longest cfg s key result s.use.cache [] := by
  have none : ∀ spelled, spelled <+: key.tokenIds →
      ¬s.use.cache.tree.HasState key.extraKey spelled := by
    intro spelled within hasState
    rcases untried with disabled | empty
    · rw [sound.use.disabled disabled] at hasState
      exact Tree.not_hasState_reset hasState
    · rw [eq_nil_of_length_eq_zero empty, prefix_nil] at within
      subst within
      exact not_hasState_nil sound.use.inv hasState
  refine ⟨⟨_, rfl⟩, ?_, ?_, .inl ⟨rfl, nothing.2⟩, ?_, fun _ => nothing⟩
  · rw [nothing.1, nothing.2]
    exact .here rootNode
  · rw [nothing.1, indicesOf, length_nil, Nat.zero_div, range_zero, flatMap_nil]
  · rintro longer inside (hasState | hasState)
    · exact absurd hasState (none longer inside)
    · exact absurd hasState (none longer inside)

/-- After every run whose inserted keys are made of whole pages, a match returns the indices
    that were stored for a prefix of its key and the node with the state that was stored for
    exactly this prefix, and no longer prefix has a state. It fails only when a copy needs a
    slot and there is none. -/
theorem match_returns_longest (cfg : CacheConfig) (numPages size : Nat) (ops : List Op)
    (s : Recorded) (allowed : Admissible (step cfg) (Allowed cfg) (reset numPages size) ops)
    (reached : run (step cfg) (reset numPages size) ops = .ok s) (key : RadixKey)
    (cow : Option (Option Nat)) :
    (∃ result c' tokens, s.use.cache.matchPrefix cfg key cow = .ok (result, c') ∧
      Longest cfg s key result c' tokens) ∨
    (s.use.Exhausted cfg (.matchPrefix key cow) ∧
      s.use.cache.matchPrefix cfg key cow = .error .canNotAllocMamba) := by
  have sound := run_sound allowed reached
  by_cases untried : cfg.disable = true ∨ key.length = 0
  · let result : Cache.MatchResult :=
      { deviceIndices := [], lastDeviceNode := rootNode, mambaPoolIdx := cow.join }
    refine .inl ⟨result, s.use.cache, [], ?_, untried_longest sound untried ⟨rfl, rfl⟩⟩
    rw [Cache.matchPrefix, if_pos (by simpa using untried)]
  rw [not_or, Bool.not_eq_true] at untried
  rcases Cache.matchPrefix_ok untried.1 sound.use.inv sound.use.leaves key untried.2 cow with
    ⟨result, c', found, middle, kvs, mambas, matched, answers⟩ |
      ⟨isCow, noSlot, ⟨found, t, helped, locked⟩, failed⟩
  · obtain ⟨tokens, longest⟩ := answers_longest sound answers
    exact .inl ⟨result, c', tokens, matched, longest⟩
  · exact .inr ⟨⟨key, found, t, by rw [isCow], noSlot, helped, locked⟩, failed⟩

instance : ∀ op, Decidable (WholePages cfg op)
  | .insert key _ _ _ _ => inferInstanceAs (Decidable (key.Aligned cfg.pageSize))
  | .matchPrefix .. | .incLockRef _ | .decLockRef _ | .evictFull _ | .evictMamba _ =>
    instDecidableTrue

instance (s : Recorded) (op : Op) : Decidable (s.Allowed cfg op) :=
  inferInstanceAs (Decidable (_ ∧ _))

/-- Pages of two tokens, which need the extra buffer. -/
def pagedConfig : CacheConfig where
  pageSize := 2
  enableMambaExtraBuffer := true
  positive := Nat.zero_lt_two
  single := fun off => Bool.noConfusion off

/-- Two pages are inserted; a match that leaves the key behind the first one splits the node,
    and a state is inserted there. -/
def halfInserted : List Op :=
  [.insert ⟨[1, 2, 3, 4], none⟩ [10, 11, 12, 13] 7 0 rfl, .matchPrefix ⟨[1, 2, 9], none⟩ none,
    .insert ⟨[1, 2], none⟩ [20, 21] 8 0 rfl]

theorem match_returns_longest_halfInserted :
    ∃ s, run (step pagedConfig) (reset 20 4) halfInserted = .ok s ∧
      ∃ result c', s.use.cache.matchPrefix pagedConfig ⟨[1, 2, 3, 9], none⟩ none =
        .ok (result, c') ∧
        result.deviceIndices = [10, 11] ∧ result.lastDeviceNode = 2 ∧
        ∃ tokens, Longest pagedConfig s ⟨[1, 2, 3, 9], none⟩ result c' tokens := by
  obtain ⟨s, reached, result, c', matched, indices, node⟩ :
      ∃ s, run (step pagedConfig) (reset 20 4) halfInserted = .ok s ∧ ∃ result c',
        s.use.cache.matchPrefix pagedConfig ⟨[1, 2, 3, 9], none⟩ none = .ok (result, c') ∧
          result.deviceIndices = [10, 11] ∧ result.lastDeviceNode = 2 := by decide +kernel
  refine ⟨s, reached, result, c', matched, indices, node, ?_⟩
  rcases match_returns_longest pagedConfig 20 4 halfInserted s (by decide +kernel) reached
    ⟨[1, 2, 3, 9], none⟩ none with ⟨result', c'', tokens, matched', longest⟩ | ⟨-, failed⟩
  · rw [matched] at matched'
    cases matched'
    exact ⟨tokens, longest⟩
  · rw [matched] at failed
    cases failed

end Recorded

end Engram.Radix
