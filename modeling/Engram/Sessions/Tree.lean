import Engram.Sessions.Controller
import Engram.Lib.Transition

/-!
# The request tree of a session

Runs of `create_req` calls on one non-streaming session, with requests completing in between. The
nodes that the session indexes form a forest (`requestTree_coherent`). Clearing a node takes the
subtree below it out of the index: the subtrees of different children have no node in common, so
each entry is deleted once.
-/

namespace Engram.Sessions

open Lib Lib.Transition List Function

/-! ### Subtrees -/

inductive Below (nodes : NodeId → SessionReqNode) : NodeId → NodeId → Prop where
  | refl (n : NodeId) : Below nodes n n
  | child {n c m : NodeId} (member : c ∈ (nodes n).children) (below : Below nodes c m) :
      Below nodes n m

namespace World

variable {w w' : World} {s : SessionRef} {n m c p : NodeId} {bosTokenId : Option Nat}

/-- The index of a session. -/
def entry (w : World) (s : SessionRef) (rid : Rid) : Option NodeId :=
  (w.sessions s).reqNodes.lookup rid

def Listed (w : World) (s : SessionRef) (n : NodeId) : Prop :=
  ∃ rid, w.entry s rid = some n

/-- The nodes that the session indexes form a forest. -/
structure Coherent (w : World) (s : SessionRef) : Prop where
  named : ∀ rid n, w.entry s rid = some n → (w.nodeReq n).rid = rid
  parents : ∀ n, w.Listed s n → ∀ p, (w.nodes n).parent = some p →
    w.Listed s p ∧ (w.nodes p).children.count n = 1
  children : ∀ p, w.Listed s p → ∀ c ∈ (w.nodes p).children,
    w.Listed s c ∧ (w.nodes c).parent = some p
  distinct : ∀ p, w.Listed s p → (w.nodes p).children.Nodup
  older : ∀ n, w.Listed s n → ∀ p, (w.nodes n).parent = some p → p < n
  created : ∀ n, w.Listed s n → n < w.nextNode ∧ (w.nodes n).req < w.nextReq

namespace Coherent

section

variable (coherent : w.Coherent s)

include coherent

theorem entry_rid (listed : w.Listed s n) :
    w.entry s (w.nodeReq n).rid = some n := by
  obtain ⟨rid, found⟩ := listed
  rw [coherent.named rid n found]
  exact found

theorem listed_below (below : Below w.nodes n m) (listed : w.Listed s n) :
    w.Listed s m := by
  induction below with
  | refl => exact listed
  | child member _ ih => exact ih (coherent.children _ listed _ member).1

theorem le_of_below (below : Below w.nodes n m) (listed : w.Listed s n) :
    n ≤ m := by
  induction below with
  | refl => exact Nat.le_refl _
  | child member _ ih =>
    obtain ⟨listedChild, isParent⟩ := coherent.children _ listed _ member
    exact Nat.le_trans (Nat.le_of_lt (coherent.older _ listedChild _ isParent)) (ih listedChild)

theorem below_parent (below : Below w.nodes n m) (listed : w.Listed s n) :
    m = n ∨ ∃ p, (w.nodes m).parent = some p ∧ Below w.nodes n p := by
  induction below with
  | refl => exact .inl rfl
  | @child n c m member below ih =>
    obtain ⟨listedChild, isParent⟩ := coherent.children _ listed _ member
    rcases ih listedChild with rfl | ⟨p, isParent', belowChild⟩
    · exact .inr ⟨n, isParent, .refl n⟩
    · exact .inr ⟨p, isParent', .child member belowChild⟩

theorem below_of_parent (listed : w.Listed s m)
    (isParent : (w.nodes m).parent = some p) (below : Below w.nodes n p) : Below w.nodes n m := by
  have member : m ∈ (w.nodes p).children := by
    rw [← count_pos_iff, (coherent.parents m listed p isParent).2]
    exact Nat.one_pos
  induction below with
  | refl => exact .child member (.refl m)
  | child first _ ih => exact .child first (ih isParent member)

theorem disjoint {c' : NodeId} (listed : w.Listed s n)
    (member : c ∈ (w.nodes n).children) (member' : c' ∈ (w.nodes n).children)
    (below : Below w.nodes c m) (below' : Below w.nodes c' m) : c = c' := by
  obtain ⟨listedC, isParent⟩ := coherent.children n listed c member
  obtain ⟨listedC', isParent'⟩ := coherent.children n listed c' member'
  have older := coherent.older c listedC n isParent
  have older' := coherent.older c' listedC' n isParent'
  -- upwards from `m`, by its age
  induction m using Nat.strongRecOn with
  | ind m ih =>
    have listedM := coherent.listed_below below listedC
    rcases coherent.below_parent below listedC with rfl | ⟨p, isParentM, belowP⟩
    · rcases coherent.below_parent below' listedC' with rfl | ⟨p, isParentM, belowP⟩
      · rfl
      · rw [isParent] at isParentM
        cases isParentM
        exact absurd (coherent.le_of_below belowP listedC') (Nat.not_le_of_lt older')
    rcases coherent.below_parent below' listedC' with rfl | ⟨p', isParentM', belowP'⟩
    · rw [isParent'] at isParentM
      cases isParentM
      exact absurd (coherent.le_of_below belowP listedC) (Nat.not_le_of_lt older)
    · rw [isParentM] at isParentM'
      cases isParentM'
      exact ih p (coherent.older m listedM p isParentM) belowP belowP'

end

end Coherent

/-! ### Clearing -/

structure Cleared (s : SessionRef) (w w' : World) (gone : NodeId → Prop) : Prop where
  nodes : ∀ n, w'.nodes n = w.nodes n
  nextNode : w'.nextNode = w.nextNode
  nextReq : w'.nextReq = w.nextReq
  reqs : ∀ r, (w'.reqs r).rid = (w.reqs r).rid ∧
    (w'.reqs r).finishedReason = (w.reqs r).finishedReason
  streaming : (w'.sessions s).streaming = (w.sessions s).streaming
  entries : ∀ rid n, w'.entry s rid = some n ↔ w.entry s rid = some n ∧ ¬ gone n

namespace Cleared

variable {gone gone' : NodeId → Prop} {w'' : World}

theorem nodeReq_rid (cleared : Cleared s w w' gone) (n : NodeId) :
    (w'.nodeReq n).rid = (w.nodeReq n).rid := by
  rw [nodeReq, cleared.nodes]
  exact (cleared.reqs _).1

theorem listed_iff (cleared : Cleared s w w' gone) : w'.Listed s n ↔ w.Listed s n ∧ ¬ gone n := by
  simp only [Listed, cleared.entries, exists_and_right]

theorem refl (s : SessionRef) (w : World) : Cleared s w w (fun _ => False) := by
  constructor <;> grind

theorem trans (first : Cleared s w w' gone) (second : Cleared s w' w'' gone') :
    Cleared s w w'' (fun n => gone n ∨ gone' n) := by
  obtain ⟨_, _, _, _, _, _⟩ := first
  obtain ⟨_, _, _, _, _, _⟩ := second
  constructor <;> grind

theorem congr (cleared : Cleared s w w' gone) (same : ∀ n, gone n ↔ gone' n) :
    Cleared s w w' gone' :=
  { cleared with entries := fun rid n => by rw [cleared.entries, same] }

end Cleared

theorem modifyReq_abort_cleared (s : SessionRef) (w : World) (r : ReqId) :
    Cleared s w (w.modifyReq r Req.abort) (fun _ => False) := by
  constructor <;> grind [Req.abort, entry]

theorem deleteNode_cleared {rid : Rid} (found : w.entry s rid = some n)
    (only : ∀ rid', w.entry s rid' = some n → rid' = rid) :
    ∃ w', w.deleteNode s rid = .ok w' ∧ Cleared s w w' (· = n) := by
  have present : rid ∈ (w.sessions s).reqNodes := OrderedDict.mem_of_lookup found
  refine ⟨_, if_pos present, ?_⟩
  constructor <;> grind [entry]

/-- Children of `n` are cleared one after the other, given that one of them can be. The index
    may have lost other subtrees before. -/
theorem foldlM_cleared {base : World} (coherent : base.Coherent s) (listed : base.Listed s n)
    (clearOne : World → NodeId → Except Fault World)
    (one : ∀ (w : World) (gone : NodeId → Prop), Cleared s base w gone →
      ∀ c ∈ (base.nodes n).children, (∀ m, Below base.nodes c m → ¬ gone m) →
        ∃ w', clearOne w c = .ok w' ∧ Cleared s w w' (Below base.nodes c))
    (cs : List NodeId) (distinct : cs.Nodup) (inside : ∀ c ∈ cs, c ∈ (base.nodes n).children)
    (w : World) (gone : NodeId → Prop) (cleared : Cleared s base w gone)
    (kept : ∀ c ∈ cs, ∀ m, Below base.nodes c m → ¬ gone m) :
    ∃ w', cs.foldlM clearOne w = .ok w' ∧
      Cleared s w w' (fun m => ∃ c ∈ cs, Below base.nodes c m) := by
  induction cs generalizing w gone with
  | nil => exact ⟨w, rfl, (Cleared.refl s w).congr (by simp)⟩
  | cons c cs ih =>
    obtain ⟨absent, distinctRest⟩ := nodup_cons.mp distinct
    have member := inside c mem_cons_self
    obtain ⟨mid, first, clearedFirst⟩ := one w gone cleared c member (kept c mem_cons_self)
    have keptRest : ∀ c' ∈ cs, ∀ m, Below base.nodes c' m → ¬ (gone m ∨ Below base.nodes c m) := by
      rintro c' inRest m below (isGone | belowFirst)
      · exact kept c' (mem_cons_of_mem _ inRest) m below isGone
      · have same := coherent.disjoint listed member
          (inside c' (mem_cons_of_mem _ inRest)) belowFirst below
        exact absent (same ▸ inRest)
    obtain ⟨w', rest, clearedRest⟩ := ih distinctRest
      (fun c' inRest => inside c' (mem_cons_of_mem _ inRest)) mid _
      (cleared.trans clearedFirst) keptRest
    refine ⟨w', ?_, (clearedFirst.trans clearedRest).congr (by simp)⟩
    rw [foldlM_cons, first]
    exact rest

theorem clear_cleared {base : World} (coherent : base.Coherent s) (fuel : Nat) (n : NodeId)
    (enough : base.nextNode ≤ n + fuel) (listed : base.Listed s n) (w : World)
    (gone : NodeId → Prop) (cleared : Cleared s base w gone)
    (kept : ∀ m, Below base.nodes n m → ¬ gone m) :
    ∃ w', clear s fuel w n = .ok w' ∧ Cleared s w w' (Below base.nodes n) := by
  induction fuel generalizing w gone n with
  | zero => exact absurd (coherent.created n listed).1 (Nat.not_lt_of_le enough)
  | succ fuel ih =>
    have one : ∀ (w : World) (gone : NodeId → Prop), Cleared s base w gone →
        ∀ c ∈ (base.nodes n).children, (∀ m, Below base.nodes c m → ¬ gone m) →
          ∃ w', clear s fuel w c = .ok w' ∧ Cleared s w w' (Below base.nodes c) := by
      intro w gone cleared c member kept
      obtain ⟨listedChild, isParent⟩ := coherent.children n listed c member
      have room : base.nextNode ≤ c + fuel := Nat.le_trans enough (Nat.le_trans
        (Nat.le_of_eq (Nat.add_right_comm n fuel 1))
        (Nat.add_le_add_right (coherent.older c listedChild n isParent) fuel))
      exact ih c room listedChild w gone cleared kept
    obtain ⟨mid, children, clearedChildren⟩ := foldlM_cleared coherent listed _ one
      (base.nodes n).children (coherent.distinct n listed) (fun _ member => member) w gone cleared
      (fun c member m below => kept m (.child member below))
    have aborted := modifyReq_abort_cleared s mid (mid.nodes n).req
    have clearedMid := (cleared.trans clearedChildren).trans aborted
    -- the entry of the node itself is still there
    have found : (mid.modifyReq (mid.nodes n).req Req.abort).entry s (base.nodeReq n).rid =
        some n := by
      rw [clearedMid.entries]
      refine ⟨coherent.entry_rid listed, ?_⟩
      rintro ((isGone | ⟨c, member, below⟩) | impossible)
      · exact kept n (.refl n) isGone
      · obtain ⟨listedChild, isParent⟩ := coherent.children n listed c member
        exact absurd (coherent.le_of_below below listedChild)
          (Nat.not_le_of_lt (coherent.older c listedChild n isParent))
      · exact impossible
    obtain ⟨w', deleted, clearedLast⟩ := deleteNode_cleared found (fun rid' found' =>
      (coherent.named rid' n ((clearedMid.entries rid' n).mp found').1).symm)
    rw [← (cleared.trans clearedChildren).nodeReq_rid] at deleted
    refine ⟨w', ?_, ?_⟩
    · rw [clear, cleared.nodes, children]
      exact deleted
    refine ((clearedChildren.trans aborted).trans clearedLast).congr fun m => ?_
    constructor
    · rintro ((⟨c, member, below⟩ | impossible) | rfl)
      · exact .child member below
      · exact impossible.elim
      · exact .refl m
    · intro below
      cases below with
      | refl => exact .inr rfl
      | child member below => exact .inl (.inl ⟨_, member, below⟩)

theorem clearChildren_cleared (coherent : w.Coherent s) (listed : w.Listed s n) :
    ∃ mid, w.clearChildren s n = .ok (mid.modifyNode n fun node => { node with children := [] }) ∧
      Cleared s w mid (fun m => ∃ c ∈ (w.nodes n).children, Below w.nodes c m) := by
  obtain ⟨mid, children, cleared⟩ := foldlM_cleared coherent listed
    (clear s w.nextNode) (fun w' gone cleared c member kept =>
      clear_cleared coherent w.nextNode c (Nat.le_add_left _ _)
        (coherent.children n listed c member).1 w' gone cleared kept)
    (w.nodes n).children (coherent.distinct n listed) (fun _ member => member) w _
    (Cleared.refl s w) (fun _ _ _ _ => not_false)
  refine ⟨mid, ?_, cleared⟩
  rw [clearChildren, children]
  rfl

/-! ### New nodes -/

/-- The tree does not change with the requests, as long as they keep their ids. -/
theorem Coherent.frame (coherent : w.Coherent s) (nodes : ∀ n, w'.nodes n = w.nodes n)
    (entries : ∀ rid, w'.entry s rid = w.entry s rid)
    (rids : ∀ n, w.Listed s n → (w'.nodeReq n).rid = (w.nodeReq n).rid)
    (nextNode : w.nextNode ≤ w'.nextNode) (nextReq : w.nextReq ≤ w'.nextReq) : w'.Coherent s := by
  have listed_iff : ∀ n, w'.Listed s n ↔ w.Listed s n := by
    simp only [Listed, entries, implies_true]
  constructor
  · intro rid n found
    rw [entries] at found
    rw [rids n ⟨rid, found⟩]
    exact coherent.named rid n found
  · intro n listed
    have := coherent.parents n ((listed_iff n).mp listed)
    grind
  · intro p listed
    have := coherent.children p ((listed_iff p).mp listed)
    grind
  · intro p listed
    have := coherent.distinct p ((listed_iff p).mp listed)
    grind
  · intro n listed
    have := coherent.older n ((listed_iff n).mp listed)
    grind
  · intro n listed
    have := coherent.created n ((listed_iff n).mp listed)
    grind

theorem Coherent.prune (coherent : w.Coherent s) (listed : w.Listed s n)
    (cleared : Cleared s w w' (fun m => ∃ c ∈ (w.nodes n).children, Below w.nodes c m)) :
    (w'.modifyNode n fun node => { node with children := [] }).Coherent s := by
  generalize isPruned : w'.modifyNode n (fun node => { node with children := [] }) = pruned
  have fields : ∀ m, (pruned.nodes m).req = (w.nodes m).req ∧
      (pruned.nodes m).parent = (w.nodes m).parent ∧
      (pruned.nodes m).children = if m = n then [] else (w.nodes m).children := by
    intro m
    have := cleared.nodes m
    grind
  have rids : ∀ m, (pruned.nodeReq m).rid = (w.nodeReq m).rid := by
    intro m
    have := (cleared.reqs (w.nodes m).req).1
    grind [nodeReq, modifyNode]
  have listed_iff : ∀ m, pruned.Listed s m ↔
      w.Listed s m ∧ ¬ ∃ c ∈ (w.nodes n).children, Below w.nodes c m :=
    fun m => isPruned ▸ cleared.listed_iff
  -- a node that stays has a parent that stays, and children that stay
  have up : ∀ m, w.Listed s m → ∀ p, (w.nodes m).parent = some p →
      (∃ c ∈ (w.nodes n).children, Below w.nodes c p) →
        ∃ c ∈ (w.nodes n).children, Below w.nodes c m := by
    rintro m old p isParent ⟨c, member, below⟩
    exact ⟨c, member, coherent.below_of_parent old isParent below⟩
  have down : ∀ p, w.Listed s p → p ≠ n → ∀ c ∈ (w.nodes p).children,
      (∃ c' ∈ (w.nodes n).children, Below w.nodes c' c) →
        ∃ c' ∈ (w.nodes n).children, Below w.nodes c' p := by
    rintro p old other c member ⟨c', member', below⟩
    have isParent := (coherent.children p old c member).2
    obtain ⟨listedC', isParent''⟩ := coherent.children n listed c' member'
    obtain rfl | ⟨p', isParent', belowP⟩ := coherent.below_parent below listedC'
    · grind
    · exact ⟨c', member', by grind⟩
  constructor
  · intro rid m found
    rw [rids]
    rw [← isPruned] at found
    exact coherent.named rid m ((cleared.entries rid m).mp found).1
  · intro m listedM p isParent
    obtain ⟨old, kept⟩ := (listed_iff m).mp listedM
    rw [(fields m).2.1] at isParent
    obtain ⟨listedP, once⟩ := coherent.parents m old p isParent
    have other : p ≠ n := by
      rintro rfl
      exact kept ⟨m, count_pos_iff.mp (by rw [once]; exact Nat.one_pos), .refl m⟩
    rw [(fields p).2.2, if_neg other]
    exact ⟨(listed_iff p).mpr ⟨listedP, fun below => kept (up m old p isParent below)⟩, once⟩
  · intro p listedP c member
    obtain ⟨old, kept⟩ := (listed_iff p).mp listedP
    rw [(fields p).2.2] at member
    rw [(fields c).2.1]
    split at member
    · cases member
    · next other =>
      obtain ⟨listedC, isParent⟩ := coherent.children p old c member
      exact ⟨(listed_iff c).mpr ⟨listedC, fun below => kept (down p old other c member below)⟩,
        isParent⟩
  · intro p listedP
    have := coherent.distinct p ((listed_iff p).mp listedP).1
    grind
  · intro m listedM
    have := coherent.older m ((listed_iff m).mp listedM).1
    grind
  · intro m listedM
    have := coherent.created m ((listed_iff m).mp listedM).1
    grind [Cleared, modifyNode]

theorem newNode_self (w : World) (req : ReqId) (parent : Option NodeId) :
    (w.newNode req parent).2.nodes w.nextNode = { req, parent, children := [] } := by
  cases parent <;> exact update_self ..

theorem newNode_other (w : World) (req : ReqId) (parent : Option NodeId) (other : m ≠ w.nextNode) :
    (w.newNode req parent).2.nodes m = { w.nodes m with
      children := (w.nodes m).children ++ if parent = some m then [w.nextNode] else [] } := by
  unfold newNode
  cases parent with
  | none => simp [modifyNode, update_of_ne other]
  | some p => by_cases same : m = p <;> simp_all [modifyNode, eq_comm]

theorem Coherent.attach (coherent : w.Coherent s) {r : ReqId} {rid : Rid} {parent : Option NodeId}
    (isReq : r < w.nextReq) (isRid : (w.reqs r).rid = rid) (absent : w.entry s rid = none)
    (listed : ∀ p, parent = some p → w.Listed s p) (nodes : w'.nodes = (w.newNode r parent).2.nodes)
    (reqs : w'.reqs = w.reqs) (nextNode : w'.nextNode = w.nextNode + 1)
    (nextReq : w'.nextReq = w.nextReq)
    (entries : ∀ other, w'.entry s other =
      if other = rid then some w.nextNode else w.entry s other) :
    w'.Coherent s := by
  have notNew : ∀ m, w.Listed s m → m ≠ w.nextNode := by
    rintro m listedM rfl
    exact Nat.lt_irrefl _ (coherent.created _ listedM).1
  have here : w'.nodes w.nextNode = { req := r, parent, children := [] } := by
    rw [nodes, newNode_self]
  have there : ∀ m, w.Listed s m → w'.nodes m = { w.nodes m with
      children := (w.nodes m).children ++ if parent = some m then [w.nextNode] else [] } := by
    intro m listedM
    rw [nodes, newNode_other _ _ _ (notNew m listedM)]
  have absentChild : ∀ p, w.Listed s p → w.nextNode ∉ (w.nodes p).children :=
    fun p listedP member => notNew _ (coherent.children p listedP _ member).1 rfl
  have entry_cases : ∀ other m, w'.entry s other = some m ↔
      (other = rid ∧ m = w.nextNode) ∨ w.entry s other = some m := by
    intro other m
    by_cases same : other = rid <;> simp [entries, same, absent, eq_comm]
  have listed_iff : ∀ m, w'.Listed s m ↔ m = w.nextNode ∨ w.Listed s m := by
    intro m
    simp only [Listed, entry_cases, exists_or, exists_eq_left]
  constructor
  · intro other m found
    rcases (entry_cases other m).mp found with ⟨rfl, rfl⟩ | old
    · simp [nodeReq, reqs, here, isRid]
    · simpa [nodeReq, reqs, there m ⟨other, old⟩] using coherent.named other m old
  · intro m listedM p isParent
    rcases (listed_iff m).mp listedM with rfl | old
    · -- the new node and its parent
      simp only [here] at isParent
      have listedP := listed p isParent
      refine ⟨(listed_iff p).mpr (.inr listedP), ?_⟩
      simp [there p listedP, isParent, count_eq_zero_of_not_mem (absentChild p listedP)]
    · rw [there m old] at isParent
      obtain ⟨listedP, once⟩ := coherent.parents m old p isParent
      refine ⟨(listed_iff p).mpr (.inr listedP), ?_⟩
      rw [there p listedP]
      split <;> simp [once, (notNew m old).symm]
  · intro p listedP c member
    rcases (listed_iff p).mp listedP with rfl | old
    · simp [here] at member
    rw [there p old, mem_append] at member
    rcases member with inside | new
    · obtain ⟨listedC, isParent⟩ := coherent.children p old c inside
      exact ⟨(listed_iff c).mpr (.inr listedC), by simpa [there c listedC] using isParent⟩
    · split at new
      · next isParent =>
        cases mem_singleton.mp new
        exact ⟨(listed_iff _).mpr (.inl rfl), by simpa [here] using isParent⟩
      · cases new
  · intro p listedP
    rcases (listed_iff p).mp listedP with rfl | old
    · simp [here]
    · rw [there p old]
      split <;> grind [coherent.distinct p old]
  · intro m listedM p isParent
    rcases (listed_iff m).mp listedM with rfl | old
    · exact (coherent.created p (listed p (by simpa [here] using isParent))).1
    · exact coherent.older m old p (by simpa [there m old] using isParent)
  · intro m listedM
    rcases (listed_iff m).mp listedM with rfl | old
    · simp [here, nextNode, nextReq, isReq]
    · have := coherent.created m old
      grind

/-! ### `create_req` -/

/-- `create_req` rejects the request: it names a request that is not in the index, or appends
    to one that has not finished. -/
def Rejected (w : World) (s : SessionRef) (params : SessionParams) : Prop :=
  ∃ rid, params.rid = some rid ∧
    (w.entry s rid = none ∨
      ∃ n, w.entry s rid = some n ∧ params.replace = false ∧ (w.nodeReq n).finished = false)

def Removed (w : World) (s : SessionRef) (params : SessionParams) (m : NodeId) : Prop :=
  params.replace = true ∧ ∃ rid n, params.rid = some rid ∧ w.entry s rid = some n ∧
    ∃ c ∈ (w.nodes n).children, Below w.nodes c m

structure Resolves (w : World) (s : SessionRef) (params : SessionParams) (resolved : Resolved)
    (w' : World) : Prop where
  coherent : w'.Coherent s
  streaming : (w'.sessions s).streaming = false
  nextNode : w'.nextNode = w.nextNode
  entries : ∀ rid m, w'.entry s rid = some m ↔ w.entry s rid = some m ∧ ¬ w.Removed s params m
  last : ∀ n, resolved.lastReqNode = some n → w'.Listed s n
  rejected : resolved.abortMessage.isSome = true ↔ w.Rejected s params

theorem resolveReplace_ok (coherent : w.Coherent s) (plain : (w.sessions s).streaming = false)
    {params : SessionParams} (replace : params.replace = true)
    (empty : params.rid = none → (w.sessions s).reqNodes.items = []) :
    ∃ resolved w', w.resolveReplace s params = .ok (resolved, w') ∧
      Resolves w s params resolved w' := by
  cases isRid : params.rid with
  | none =>
    refine ⟨{}, w, ?_, coherent, plain, rfl, ?_, by simp, ?_⟩
    · rw [resolveReplace, isRid]
      simp only [clearAll, empty isRid]
      rfl
    · intro rid m
      simp [Removed, isRid]
    · simp [Rejected, isRid]
  | some rid =>
    cases found : w.entry s rid with
    | none =>
      refine ⟨{ abortMessage := some "Invalid request session id" }, w, ?_, coherent, plain, rfl,
        ?_, by simp, ?_⟩
      · rw [entry] at found
        simp only [resolveReplace, isRid, found]
      · intro rid' m
        simp [Removed, isRid, found]
      · simp [Rejected, isRid, found]
    | some n =>
      -- the request is marked, and then the subtrees below its node are cleared
      have aborted := modifyReq_abort_cleared s w (w.nodes n).req
      have coherent' : (w.modifyReq (w.nodes n).req Req.abort).Coherent s :=
        coherent.frame (fun _ => rfl) (fun _ => rfl) (fun m _ => aborted.nodeReq_rid m)
          (Nat.le_refl _) (Nat.le_refl _)
      obtain ⟨mid, children, cleared⟩ := clearChildren_cleared coherent' ⟨rid, found⟩
      have removed : ∀ m, w.Removed s params m ↔
          ∃ c ∈ (w.nodes n).children, Below w.nodes c m := by
        intro m
        constructor
        · rintro ⟨-, rid', n', isRid', found', below⟩
          rw [isRid] at isRid'
          cases isRid'
          rw [found] at found'
          cases found'
          exact below
        · exact fun below => ⟨replace, rid, n, isRid, found, below⟩
      have entries : ∀ rid m, mid.entry s rid = some m ↔
          w.entry s rid = some m ∧ ¬ w.Removed s params m := by
        intro rid' m
        rw [cleared.entries, removed]
        rfl
      refine ⟨{ lastReqNode := some n }, _, ?_, coherent'.prune ⟨rid, found⟩ cleared, ?_,
        cleared.nextNode, entries, ?_, ?_⟩
      · rw [entry] at found
        simp only [resolveReplace, isRid, found, children]
        rfl
      · exact cleared.streaming.trans plain
      · rintro m isLast
        cases isLast
        refine ⟨rid, (entries rid n).mpr ⟨found, ?_⟩⟩
        rw [removed]
        rintro ⟨c, member, below⟩
        -- the node itself stays, since it is older than what is below it
        obtain ⟨listedC, isParent⟩ := coherent.children n ⟨rid, found⟩ c member
        exact absurd (coherent.le_of_below below listedC)
          (Nat.not_le_of_lt (coherent.older c listedC n isParent))
      · simp [Rejected, isRid, found, replace]

theorem resolve_ok (coherent : w.Coherent s) (plain : (w.sessions s).streaming = false)
    (params : SessionParams)
    (empty : params.replace = true → params.rid = none → (w.sessions s).reqNodes.items = []) :
    ∃ resolved w', w.resolve s params = .ok (resolved, w') ∧ Resolves w s params resolved w' := by
  cases replace : params.replace with
  | true =>
    obtain ⟨resolved, w', resolves, spec⟩ :=
      resolveReplace_ok coherent plain replace (empty replace)
    refine ⟨resolved, w', ?_, spec⟩
    rw [resolve, plain, replace]
    exact resolves
  | false =>
    have kept : ∀ rid m, w.entry s rid = some m ↔
        w.entry s rid = some m ∧ ¬ w.Removed s params m := by
      intro rid m
      simp [Removed, replace]
    refine ⟨w.resolveAppend s params, w, ?_, coherent, plain, rfl, kept, ?_, ?_⟩
    · rw [resolve, plain, replace]
      rfl
    · intro n isLast
      cases isRid : params.rid with
      | none => simp [resolveAppend, isRid] at isLast
      | some rid =>
        refine ⟨rid, ?_⟩
        rw [resolveAppend] at isLast
        rw [entry]
        cases found : (w.sessions s).reqNodes.lookup rid <;> simp_all
    · cases isRid : params.rid with
      | none => simp [resolveAppend, isRid, Rejected]
      | some rid =>
        cases found : (w.sessions s).reqNodes.lookup rid with
        | none => simp [resolveAppend, isRid, Rejected, entry, found]
        | some node =>
          cases finished : (w.nodeReq node).finished <;>
            simp [resolveAppend, isRid, Rejected, entry, found, replace]

theorem newReq_rid (w : World) (s : SessionRef) (bosTokenId : Option Nat) (input : ReqInput)
    (last : Option NodeId) : (w.newReq s bosTokenId input last).rid = input.rid := by
  unfold newReq
  split <;> rfl

theorem Coherent.withReq (coherent : w.Coherent s) (req : Req) :
    ({ w.modifyReq w.nextReq (fun _ => req) with nextReq := w.nextReq + 1 } : World).Coherent
    s := by
  refine coherent.frame (fun _ => rfl) (fun _ => rfl) ?_ (Nat.le_refl _) (Nat.le_succ _)
  intro n listed
  have other : (w.nodes n).req ≠ w.nextReq := Nat.ne_of_lt (coherent.created n listed).2
  dsimp only [nodeReq, modifyReq]
  rw [update_of_ne other]

/-- A call of `create_req`: a rejected request changes nothing in the index, an accepted one is
    added to what is left of it. -/
theorem createReq_ok (coherent : w.Coherent s) (plain : (w.sessions s).streaming = false)
    (bosTokenId : Option Nat) (input : ReqInput) (now : Nat)
    (empty : input.sessionParams.replace = true → input.sessionParams.rid = none →
      (w.sessions s).reqNodes.items = [])
    (unused : ¬ w.Rejected s input.sessionParams → ∀ m, w.entry s input.rid = some m →
      w.Removed s input.sessionParams m) :
    ∃ r accepted w', w.createReq s bosTokenId input now = .ok (r, accepted, w') ∧
      w'.Coherent s ∧ (w'.sessions s).streaming = false ∧
      (accepted = true ↔ ¬ w.Rejected s input.sessionParams) ∧
      (accepted = false → ∀ rid, w'.entry s rid = w.entry s rid) ∧
      (accepted = true → ∀ rid m, w'.entry s rid = some m ↔
        (w.entry s rid = some m ∧ ¬ w.Removed s input.sessionParams m) ∨
          (rid = input.rid ∧ m = w.nextNode)) := by
  -- the clock reading
  generalize isTimed : w.modifySession s (fun session => { session with lastActiveTime := now }) =
    timed
  have nodes : ∀ n, timed.nodes n = w.nodes n := by grind
  have reqs : ∀ r, timed.reqs r = w.reqs r := by grind
  have sessions : timed.sessions s = { w.sessions s with lastActiveTime := now } := by grind
  have entries : ∀ rid, timed.entry s rid = w.entry s rid := by simp [entry, sessions]
  have rejected : timed.Rejected s input.sessionParams ↔ w.Rejected s input.sessionParams := by
    simp only [Rejected, entries, nodeReq, nodes, reqs]
  have removed : ∀ m, timed.Removed s input.sessionParams m ↔
      w.Removed s input.sessionParams m := by
    simp only [Removed, entries, funext nodes, implies_true]
  have coherentTimed : timed.Coherent s :=
    coherent.frame nodes entries (by simp [nodeReq, nodes, reqs]) (by grind) (by grind)
  obtain ⟨resolved, found, resolves, spec⟩ :=
    resolve_ok coherentTimed (by simpa [sessions] using plain)
    input.sessionParams (by simpa [sessions] using empty)
  -- the new request object
  have isRid := newReq_rid found s bosTokenId input resolved.lastReqNode
  generalize isReq : found.newReq s bosTokenId input resolved.lastReqNode = req at isRid
  generalize isMade :
    ({ found.modifyReq found.nextReq (fun _ => req) with nextReq := found.nextReq + 1 } : World) =
      made
  have coherentMade : made.Coherent s := isMade ▸ spec.coherent.withReq req
  have plainMade : (made.sessions s).streaming = false := isMade ▸ spec.streaming
  have entriesFound : ∀ rid, made.entry s rid = found.entry s rid := by
    rw [← isMade]
    exact fun _ => rfl
  have entriesMade : ∀ rid m, made.entry s rid = some m ↔
      w.entry s rid = some m ∧ ¬ w.Removed s input.sessionParams m := by
    simp only [entriesFound, spec.entries, entries, removed, implies_true]
  have runs : w.createReq s bosTokenId input now = .ok (found.nextReq,
      resolved.abortMessage.isNone, made.record s found.nextReq input.rid resolved) := by
    rw [createReq, isTimed]
    simp only [resolves, bind, Except.bind, isReq, isMade]
  refine ⟨_, _, _, runs, ?_⟩
  have accepted : resolved.abortMessage.isNone = true ↔ ¬ w.Rejected s input.sessionParams := by
    rw [← rejected, ← spec.rejected]
    simp
  cases isMessage : resolved.abortMessage with
  | some message =>
    rw [isMessage] at accepted
    -- what is rejected replaces nothing
    have notRemoved : ∀ m, ¬ w.Removed s input.sessionParams m := by
      have isRejected : w.Rejected s input.sessionParams := by simpa using accepted
      rintro m ⟨replace, rid, n, isRid', found', -⟩
      obtain ⟨rid', isRid'', none | ⟨n', -, noReplace, -⟩⟩ := isRejected <;> simp_all
    rw [record, isMessage]
    refine ⟨?_, plainMade, accepted, fun _ rid => ?_, nofun⟩
    · refine coherentMade.frame (fun _ => rfl) (fun _ => rfl) ?_ (Nat.le_refl _) (Nat.le_refl _)
      intro n _
      grind [nodeReq, Req.setFinishWithAbort]
    · refine Option.ext fun m => ?_
      change made.entry s rid = some m ↔ _
      rw [entriesMade]
      exact and_iff_left (notRemoved m)
  | none =>
    rw [isMessage] at accepted
    have absent : made.entry s input.rid = none := by
      cases isEntry : made.entry s input.rid with
      | none => rfl
      | some m =>
        obtain ⟨old, kept⟩ := (entriesMade input.rid m).mp isEntry
        exact absurd (unused (accepted.mp rfl) m old) kept
    -- the index after the insertion
    generalize isNext : (made.newNode found.nextReq resolved.lastReqNode).2 = next
    have recorded : made.record s found.nextReq input.rid resolved =
      next.modifySession s fun session =>
        { session with reqNodes := session.reqNodes.insert input.rid made.nextNode } := by
      rw [record, isMessage, plainMade, ← isNext]
      rfl
    have sameSessions : next.sessions s = made.sessions s := by grind
    rw [recorded]
    have entriesAfter : ∀ rid, (next.modifySession s fun session => { session with
        reqNodes := session.reqNodes.insert input.rid made.nextNode }).entry s rid =
        if rid = input.rid then some made.nextNode else made.entry s rid := by
      intro rid
      simp [entry, modifySession_sessions, sameSessions, OrderedDict.lookup_insert]
    refine ⟨?_, ?_, accepted, nofun, fun _ rid m => ?_⟩
    · have isNew : (made.reqs found.nextReq).rid = input.rid := by
        rw [← isMade, ← isRid]
        simp [modifyReq_reqs]
      refine coherentMade.attach (r := found.nextReq) (by grind) isNew absent ?_
        (by rw [isNext]; rfl) (funext fun x => by grind) (by grind) (by grind) entriesAfter
      intro p isLast
      obtain ⟨rid, isEntry⟩ := spec.last p isLast
      exact ⟨rid, (entriesFound rid).trans isEntry⟩
    · simp [modifySession_sessions, sameSessions, plainMade]
    · have nextNodeMade : made.nextNode = w.nextNode := by
        have := spec.nextNode
        grind
      rw [entriesAfter, nextNodeMade, ← entriesMade]
      by_cases same : rid = input.rid <;> simp [same, absent, eq_comm]

/-! ### Runs -/

/-- A call of `create_req`, or the completion of a request. -/
inductive TreeEvent where
  | create (input : ReqInput) (now : Nat)
  | complete (r : ReqId) (reason : FinishReason)
deriving DecidableEq, Repr

def complete (w : World) (r : ReqId) (reason : FinishReason) : World :=
  w.modifyReq r fun req =>
    if req.finishedReason.isNone then { req with finishedReason := some reason } else req

def treeStep (bosTokenId : Option Nat) (s : SessionRef) (w : World) :
    TreeEvent → Except Fault World
  | .create input now => do
    let (_, _, w) ← w.createReq s bosTokenId input now
    .ok w
  | .complete r reason => .ok (w.complete r reason)

/-- Nothing is replaced without naming a request while the session has requests, and an accepted
    request has an id that is not in the index, or that the same call removes from it. -/
def Suits (s : SessionRef) (w : World) : TreeEvent → Prop
  | .create input _ =>
    (input.sessionParams.replace = true → input.sessionParams.rid = none →
      (w.sessions s).reqNodes.items = []) ∧
    (¬ w.Rejected s input.sessionParams → ∀ m, w.entry s input.rid = some m →
      w.Removed s input.sessionParams m)
  | .complete _ _ => True

/-- A call of `create_req` with the replacement of a request takes exactly what is properly below
    it out of the index; one with the replacement of everything leaves the new node alone. -/
def Replaces (bosTokenId : Option Nat) (s : SessionRef) (w : World) (input : ReqInput) (now : Nat) :
    Prop :=
  ∃ w', treeStep bosTokenId s w (.create input now) = .ok w' ∧
    (∀ rid n, input.sessionParams.rid = some rid → w.entry s rid = some n → ∀ other m,
      w'.entry s other = some m ↔
        (w.entry s other = some m ∧ ¬ (m ≠ n ∧ Below w.nodes n m)) ∨
          (other = input.rid ∧ m = w.nextNode)) ∧
    (input.sessionParams.rid = none → ∀ other m,
      w'.entry s other = some m ↔ other = input.rid ∧ m = w.nextNode)

theorem treeStep_ok (bosTokenId : Option Nat) (event : TreeEvent)
    (inv : w.Coherent s ∧ (w.sessions s).streaming = false) (suits : w.Suits s event) :
    ∃ w', treeStep bosTokenId s w event = .ok w' ∧
      w'.Coherent s ∧ (w'.sessions s).streaming = false := by
  cases event with
  | create input now =>
    obtain ⟨r, accepted, w', runs, coherent, plain, -⟩ :=
      createReq_ok inv.1 inv.2 bosTokenId input now suits.1 suits.2
    refine ⟨w', ?_, coherent, plain⟩
    rw [treeStep, runs]
    rfl
  | complete r reason =>
    refine ⟨_, rfl, inv.1.frame (fun _ => rfl) (fun _ => rfl) ?_ (Nat.le_refl _) (Nat.le_refl _),
      inv.2⟩
    intro n _
    dsimp only [nodeReq, complete, modifyReq]
    by_cases same : (w.nodes n).req = r
    · rw [same, update_self]
      split <;> rfl
    · rw [update_of_ne same]

theorem treeRun_ok (events : List TreeEvent) (inv : w.Coherent s ∧ (w.sessions s).streaming = false)
    (suits : Admissible (treeStep bosTokenId s) (Suits s) w events) :
    ∃ w', run (treeStep bosTokenId s) w events = .ok w' ∧
      w'.Coherent s ∧ (w'.sessions s).streaming = false := by
  induction events generalizing w with
  | nil => exact ⟨w, rfl, inv⟩
  | cons event events ih =>
    obtain ⟨permitted, later⟩ := suits
    obtain ⟨mid, stepped, invMid⟩ := treeStep_ok bosTokenId event inv permitted
    rw [stepped] at later
    obtain ⟨w', completed, inv'⟩ := ih invMid later
    refine ⟨w', ?_, inv'⟩
    rw [run, stepped]
    exact completed

theorem removed_iff (coherent : w.Coherent s) {params : SessionParams} {rid : Rid}
    (replace : params.replace = true) (named : params.rid = some rid)
    (found : w.entry s rid = some n) :
    w.Removed s params m ↔ m ≠ n ∧ Below w.nodes n m := by
  constructor
  · rintro ⟨-, rid', n', named', found', c, member, below⟩
    rw [named] at named'
    cases named'
    rw [found] at found'
    cases found'
    obtain ⟨listed, parent⟩ := coherent.children n ⟨rid, found⟩ c member
    have younger : n < m :=
      Nat.lt_of_lt_of_le (coherent.older c listed n parent) (coherent.le_of_below below listed)
    exact ⟨Nat.ne_of_gt younger, .child member below⟩
  · rintro ⟨other, below⟩
    cases below with
    | refl => exact absurd rfl other
    | child member below => exact ⟨replace, rid, n, named, found, _, member, below⟩

theorem replaces_of_suits {input : ReqInput} {now : Nat}
    (inv : w.Coherent s ∧ (w.sessions s).streaming = false) (suits : w.Suits s (.create input now))
    (replace : input.sessionParams.replace = true) : w.Replaces bosTokenId s input now := by
  obtain ⟨r, accepted, w', runs, -, -, isAccepted, -, entries⟩ :=
    createReq_ok inv.1 inv.2 bosTokenId input now suits.1 suits.2
  refine ⟨w', by rw [treeStep, runs]; rfl, ?_, ?_⟩
  · intro rid n named found other m
    have notRejected : ¬ w.Rejected s input.sessionParams := by
      rintro ⟨rid', named', absent | ⟨-, -, appends, -⟩⟩
      · rw [named] at named'
        cases named'
        rw [found] at absent
        cases absent
      · rw [replace] at appends
        cases appends
    rw [entries (isAccepted.mpr notRejected), removed_iff inv.1 replace named found]
  intro unnamed other m
  have notRejected : ¬ w.Rejected s input.sessionParams := by
    rintro ⟨rid, named, -⟩
    rw [unnamed] at named
    cases named
  -- the index is empty, as this call is made on no other one
  have noEntry : w.entry s other ≠ some m := by
    rw [entry, Ne, OrderedDict.lookup_eq_some_iff, suits.1 replace unnamed]
    exact not_mem_nil
  rw [entries (isAccepted.mpr notRejected), or_iff_right (fun old => noEntry old.1)]

theorem coherent_of_fresh (fresh : (w.sessions s).reqNodes = .empty) : w.Coherent s := by
  have notListed : ∀ n, ¬ w.Listed s n := by
    rintro n ⟨rid, found⟩
    rw [entry, fresh] at found
    cases found
  refine ⟨?_, ?_, ?_, ?_, ?_, ?_⟩
  · exact fun rid n found => absurd ⟨rid, found⟩ (notListed n)
  all_goals exact fun n listed => absurd listed (notListed n)

/-- From a new session on, as long as nothing is replaced wholesale and no request id is reused,
    `create_req` does not raise and the request tree stays coherent. -/
theorem requestTree_coherent (bosTokenId : Option Nat) (w : World) (s : SessionRef)
    (fresh : (w.sessions s).reqNodes = .empty) (plain : (w.sessions s).streaming = false)
    (events : List TreeEvent) (suits : Admissible (treeStep bosTokenId s) (Suits s) w events) :
    ∃ w', run (treeStep bosTokenId s) w events = .ok w' ∧ w'.Coherent s ∧
      ∀ input now, w'.Suits s (.create input now) → input.sessionParams.replace = true →
        w'.Replaces bosTokenId s input now := by
  obtain ⟨w', completed, inv⟩ := treeRun_ok events ⟨coherent_of_fresh fresh, plain⟩ suits
  exact ⟨w', completed, inv.1, fun input now suits' => replaces_of_suits inv suits'⟩

/-- A form of the condition that can be evaluated. -/
def suitsNew (s : SessionRef) (w : World) : TreeEvent → Bool
  | .create input _ =>
    !(input.sessionParams.replace && input.sessionParams.rid.isNone) &&
      (w.entry s input.rid).isNone
  | .complete _ _ => true

theorem suits_of_suitsNew (w : World) (event : TreeEvent) (new : w.suitsNew s event = true) :
    w.Suits s event := by
  cases event with
  | create input now =>
    simp only [suitsNew, Bool.and_eq_true, Option.isNone_iff_eq_none] at new
    refine ⟨fun replace unnamed => ?_, fun _ m found => ?_⟩
    · simp [replace, unnamed] at new
    · rw [new.2] at found
      cases found
  | complete r reason => trivial

/-- A conversation with two branches, of which one is replaced. -/
def branches : List TreeEvent :=
  [.create { rid := "a", inputIds := [1], sessionParams := {} } 0, .complete 0 .regular,
    .create { rid := "b", inputIds := [2], sessionParams := { rid := some "a" } } 1,
    .complete 1 .regular,
    .create { rid := "c", inputIds := [3], sessionParams := { rid := some "b" } } 2,
    .create
      { rid := "d", inputIds := [4], sessionParams := { rid := some "a", replace := true } } 3]

theorem requestTree_coherent_branches :
    ∃ w', run (treeStep none 0) {} branches = .ok w' ∧ w'.Coherent 0 ∧
      w'.entry 0 "a" = some 0 ∧ w'.entry 0 "b" = none ∧ w'.entry 0 "c" = none ∧
      w'.entry 0 "d" = some 3 := by
  have new : Admissible (treeStep none 0) (fun w event => w.suitsNew 0 event = true)
      {} branches := by
    decide +kernel
  obtain ⟨w', completed, coherent, -⟩ := requestTree_coherent none {} 0 rfl rfl branches
    (new.mono suits_of_suitsNew)
  obtain ⟨w'', completed', entries⟩ : ∃ w, run (treeStep none 0) {} branches = .ok w ∧
      w.entry 0 "a" = some 0 ∧ w.entry 0 "b" = none ∧ w.entry 0 "c" = none ∧
      w.entry 0 "d" = some 3 := by decide +kernel
  rw [completed] at completed'
  cases completed'
  exact ⟨w', completed, coherent, entries⟩

/-- A request appended under an id that is still in the index hides the older node, which its
    parent still lists: the next replacement of the parent looks for the id twice. A replacement
    that names no request changes the dictionary that it iterates over. -/
theorem requestTree_faults :
    run (treeStep none 0) {}
      [.create { rid := "a", inputIds := [1], sessionParams := {} } 0, .complete 0 .regular,
        .create { rid := "b", inputIds := [2], sessionParams := { rid := some "a" } } 1,
        .complete 1 .regular,
        .create { rid := "b", inputIds := [3], sessionParams := { rid := some "a" } } 2,
        .create { rid := "c", inputIds := [4],
                  sessionParams := { rid := some "a", replace := true } } 3] =
        .error (.keyError "b") ∧
    run (treeStep none 0) {}
      [.create { rid := "a", inputIds := [1], sessionParams := {} } 0,
        .create { rid := "b", inputIds := [2], sessionParams := { replace := true } } 1] =
        .error .dictionaryChangedSize :=
  ⟨eq_error_of_faultOf (by decide +kernel), eq_error_of_faultOf (by decide +kernel)⟩

end World

end Engram.Sessions
