import Engram.Lib.Blocks
import Engram.Lib.Stores

/-!
# Pages of one pool behind pages of another

Each page of the front pool has at most one page of the back pool behind it, and different pages
have different ones. A mapping of indices follows this link of pages. Three things can happen to
it: pages are taken from both free lists and linked, the links of some pages are cut, and pages
without a link are given back.
-/

namespace Engram.Lib

open List

def linkedIndex (p : Nat) (link : Nat → Nat) (i : Nat) : Nat :=
  link (i / p) * p + i % p

theorem linkedIndex_div {p : Nat} (positive : 0 < p) (link : Nat → Nat) (i : Nat) :
    linkedIndex p link i / p = link (i / p) := by
  rw [linkedIndex, Nat.add_comm, Nat.add_mul_div_right _ _ positive,
    Nat.div_eq_of_lt (Nat.mod_lt _ positive), Nat.zero_add]

theorem linkedIndex_mod (p : Nat) (link : Nat → Nat) (i : Nat) :
    linkedIndex p link i % p = i % p := by
  rw [linkedIndex, Nat.mul_add_mod_self_right, Nat.mod_mod]

theorem linkedIndex_pos {p : Nat} (positive : 0 < p) {link : Nat → Nat} {i : Nat}
    (linked : link (i / p) ≠ 0) : 0 < linkedIndex p link i :=
  Nat.add_pos_left (Nat.mul_pos (Nat.pos_of_ne_zero linked) positive) _

theorem blocks_map {p : Nat} (positive : 0 < p) (link : Nat → Nat) (pages : List Nat) :
    blocks p (pages.map link) = (blocks p pages).map (linkedIndex p link) := by
  induction pages with
  | nil => rfl
  | cons page pages ih =>
    rw [map_cons, blocks_cons, blocks_cons, map_append, block, block, map_map]
    congr 1
    apply map_congr_left
    intro offset inside
    rw [mem_range] at inside
    rw [Function.comp_apply, linkedIndex, Nat.add_comm (page * p),
      Nat.add_mul_div_right _ _ positive, Nat.add_mul_mod_self_right, Nat.div_eq_of_lt inside,
      Nat.mod_eq_of_lt inside, Nat.zero_add]

structure Linked (p numFront numBack : Nat) (frontFree backFree held : List Nat)
    (mapping : Nat → Int) (link : Nat → Nat) : Prop where
  frontNodup : frontFree.Nodup
  mem_front : ∀ page, page ∈ frontFree ↔
    (1 ≤ page ∧ page ≤ numFront) ∧ ∀ i ∈ held, i / p ≠ page
  backNodup : backFree.Nodup
  mem_back : ∀ page, page ∈ backFree ↔ (1 ≤ page ∧ page ≤ numBack) ∧ ∀ other, link other ≠ page
  held_page : ∀ i ∈ held, 1 ≤ i / p ∧ i / p ≤ numFront
  link_le : ∀ page, link page ≤ numBack
  injective : ∀ page other, link page ≠ 0 → link page = link other → page = other
  mapped : ∀ i, mapping i ≠ 0 →
    i ∈ held ∧ link (i / p) ≠ 0 ∧ mapping i = linkedIndex p link i
  backed : ∀ page, link page ≠ 0 → ∃ i, i / p = page ∧ mapping i ≠ 0

namespace Linked

theorem init (p numFront numBack : Nat) :
    Linked p numFront numBack (List.range' 1 numFront) (List.range' 1 numBack) [] (fun _ => 0)
      (fun _ => 0) where
  frontNodup := nodup_range'
  mem_front page := by
    simp
    omega
  backNodup := nodup_range'
  mem_back page := by
    simp
    omega
  held_page := by simp
  link_le _ := Nat.zero_le _
  injective page other linked := absurd rfl linked
  mapped i linked := absurd rfl linked
  backed page linked := absurd rfl linked

variable {p numFront numBack page : Nat} {frontFree frontFree' backFree backFree' held : List Nat}
  {mapping mapping' : Nat → Int} {link : Nat → Nat}
  (linked : Linked p numFront numBack frontFree backFree held mapping link)

include linked

theorem perm (front : frontFree.Perm frontFree') (back : backFree.Perm backFree') :
    Linked p numFront numBack frontFree' backFree' held mapping link where
  frontNodup := front.nodup_iff.mp linked.frontNodup
  mem_front page := front.mem_iff.symm.trans (linked.mem_front page)
  backNodup := back.nodup_iff.mp linked.backNodup
  mem_back page := back.mem_iff.symm.trans (linked.mem_back page)
  held_page := linked.held_page
  link_le := linked.link_le
  injective := linked.injective
  mapped := linked.mapped
  backed := linked.backed

theorem mapping_injective (positive : 0 < p) {i j : Nat} (mapped : mapping i ≠ 0)
    (same : mapping i = mapping j) : i = j := by
  obtain ⟨-, linkI, isI⟩ := linked.mapped i mapped
  obtain ⟨-, linkJ, isJ⟩ := linked.mapped j (same ▸ mapped)
  rw [isI, isJ, Int.ofNat_inj] at same
  have pages := linkedIndex_div positive link i
  have offsets := linkedIndex_mod p link i
  rw [same, linkedIndex_div positive] at pages
  rw [same, linkedIndex_mod] at offsets
  have samePage := linked.injective _ _ linkI pages.symm
  rw [← Nat.div_add_mod' i p, ← Nat.div_add_mod' j p, samePage, offsets]

theorem mapping_div (positive : 0 < p) {i : Nat} (mapped : mapping i ≠ 0) :
    mapping i / (p : Int) = link (i / p) := by
  rw [(linked.mapped i mapped).2.2, ← Int.natCast_ediv, linkedIndex_div positive]

theorem mem_back_iff (positive : 0 < p) (isPage : 1 ≤ page ∧ page ≤ numBack) :
    page ∈ backFree ↔ ∀ i, mapping i / (p : Int) ≠ page := by
  rw [linked.mem_back, and_iff_right isPage]
  constructor
  · intro unlinked i maps
    by_cases mapped : mapping i = 0
    · rw [mapped, Int.zero_ediv] at maps
      omega
    · rw [linked.mapping_div positive mapped, Int.ofNat_inj] at maps
      exact unlinked _ maps
  · intro unmapped other isLink
    obtain ⟨i, rfl, mapped⟩ := linked.backed other (by omega)
    apply unmapped i
    rw [linked.mapping_div positive mapped, isLink]

theorem link_of_free (free : page ∈ frontFree) : link page = 0 := by
  by_contra some
  obtain ⟨i, inPage, mapped⟩ := linked.backed page some
  exact ((linked.mem_front page).mp free).2 i (linked.mapped i mapped).1 inPage

section Grow

variable {taken joined partners new stored : List Nat}

/-- Pages are taken from both pools and linked; indices of these pages, and of pages that have a
    link already, are handed out and mapped. -/
theorem grow (positive : 0 < p) (front : frontFree.Perm (taken ++ frontFree'))
    (back : backFree.Perm (partners ++ backFree')) (some : ∀ page ∈ joined, page ∈ taken)
    (distinct : joined.Nodup) (length : joined.length = partners.length)
    (inside : ∀ i ∈ new, i / p ∈ taken ∨ ∃ j ∈ held, j / p = i / p)
    (covered : ∀ page ∈ taken, ∃ i ∈ new, i / p = page) (isNew : ∀ i ∈ stored, i ∈ new)
    (onLink : ∀ i ∈ stored, i / p ∈ joined ∨ link (i / p) ≠ 0)
    (reached : ∀ page ∈ joined, ∃ i ∈ stored, i / p = page)
    (maps : ∀ i, mapping' i = if i ∈ stored then
      (linkedIndex p (applyStores link (joined.zip partners)) i : Int) else mapping i) :
    Linked p numFront numBack frontFree' backFree' (held ++ new) mapping'
      (applyStores link (joined.zip partners)) := by
  have frontParts := front.nodup_iff.mp linked.frontNodup
  have backParts := back.nodup_iff.mp linked.backNodup
  rw [nodup_append] at frontParts backParts
  have frontMem : ∀ page, page ∈ frontFree ↔ page ∈ taken ∨ page ∈ frontFree' := by
    simp [front.mem_iff]
  have backMem : ∀ page, page ∈ backFree ↔ page ∈ partners ∨ page ∈ backFree' := by
    simp [back.mem_iff]
  have wasFree : ∀ page ∈ joined, link page = 0 := fun page member =>
    linked.link_of_free ((frontMem page).mpr (.inl (some page member)))
  have values : joined.map (applyStores link (joined.zip partners)) = partners :=
    map_applyStores_zip distinct length
  have others : ∀ page, page ∉ joined → applyStores link (joined.zip partners) page = link page :=
    fun page absent => applyStores_of_notMem (by rwa [map_fst_zip (Nat.le_of_eq length)])
  generalize applyStores link (joined.zip partners) = link' at maps values others ⊢
  have isPartner : ∀ page ∈ joined, link' page ∈ partners := fun page member =>
    values ▸ mem_map_of_mem member
  have ofPartner : ∀ page ∈ partners, ∃ other ∈ joined, link' other = page := by
    intro page member
    rw [← values] at member
    exact mem_map.mp member
  have onePartner : ∀ page ∈ joined, ∀ other ∈ joined, link' page = link' other → page = other :=
    fun page joins other joins' same =>
      inj_on_of_nodup_map (values ▸ backParts.1 : (joined.map link').Nodup) joins joins' same
  have wasBack := linked.mem_back
  have isLinked : ∀ i ∈ stored, 0 < linkedIndex p link' i := by
    intro i member
    have := onLink i member
    exact linkedIndex_pos positive (by grind)
  constructor
  case frontNodup => exact frontParts.2.1
  case backNodup => exact backParts.2.1
  case mem_front =>
    intro page
    have before := linked.mem_front page
    rw [front.mem_iff, mem_append] at before
    constructor
    · intro free
      obtain ⟨range, unheld⟩ := before.mp (.inr free)
      refine ⟨range, ?_⟩
      intro i member
      rcases mem_append.mp member with old | fresh
      · exact unheld i old
      · rcases inside i fresh with isTaken | ⟨j, isHeld, samePage⟩
        · exact frontParts.2.2 _ isTaken _ free
        · exact samePage ▸ unheld j isHeld
    rintro ⟨range, unheld⟩
    rcases before.mpr ⟨range, fun i member => unheld i (mem_append_left _ member)⟩ with
      isTaken | free
    · obtain ⟨i, fresh, inPage⟩ := covered page isTaken
      exact absurd inPage (unheld i (mem_append_right _ fresh))
    · exact free
  case mem_back =>
    intro page
    have before := wasBack page
    have := ofPartner page
    grind
  case held_page =>
    intro i member
    have before := linked.mem_front (i / p)
    have old := linked.held_page
    grind
  case link_le =>
    intro page
    have := linked.link_le page
    grind
  case injective =>
    -- a new link is none of the old ones, since its page was free
    intro page other has same
    have := linked.injective page other
    grind
  case mapped =>
    intro i isMapped
    have := linked.mapped i
    rw [maps] at isMapped ⊢
    grind [linkedIndex]
  case backed =>
    intro page has
    have := linked.backed page
    have := reached page
    grind

end Grow

def behind (mapping : Nat → Int) (indices : List Nat) : List Nat :=
  ((indices.map mapping).filter (0 < ·)).map Int.toNat

theorem mem_behind (positive : 0 < p) {indices : List Nat} :
    page ∈ ((behind mapping indices).map (· / p)).dedup ↔
      ∃ i ∈ indices, mapping i ≠ 0 ∧ link (i / p) = page := by
  simp only [behind, mem_dedup, mem_map, mem_filter, decide_eq_true_eq]
  constructor
  · rintro ⟨_, ⟨_, ⟨⟨i, member, rfl⟩, some⟩, rfl⟩, rfl⟩
    refine ⟨i, member, by omega, ?_⟩
    rw [(linked.mapped i (by omega)).2.2, Int.toNat_natCast, linkedIndex_div positive]
  · rintro ⟨i, member, isMapped, rfl⟩
    obtain ⟨-, has, isIndex⟩ := linked.mapped i isMapped
    refine ⟨_, ⟨_, ⟨⟨i, member, rfl⟩, by omega⟩, rfl⟩, ?_⟩
    rw [isIndex, Int.toNat_natCast, linkedIndex_div positive]

theorem nodup_behind (positive : 0 < p) {indices : List Nat} (distinct : indices.Nodup) :
    (behind mapping indices).Nodup := by
  rw [behind, filter_map, map_map]
  apply (distinct.filter _).map_on
  intro i isKept j isKept' same
  have mapsI := of_decide_eq_true (mem_filter.mp isKept).2
  have mapsJ := of_decide_eq_true (mem_filter.mp isKept').2
  simp only [Function.comp_apply] at mapsI mapsJ same
  exact linked.mapping_injective positive (by omega) (by omega)

section Cut

variable {indices : List Nat}
  (whole : ∀ i ∈ indices, ∀ j ∈ held, j / p = i / p → j ∈ indices)

include whole

theorem cut (positive : 0 < p)
    (back : backFree'.Perm (((behind mapping indices).map (· / p)).dedup ++ backFree))
    (maps : ∀ i, mapping' i = if i ∈ indices then 0 else mapping i) :
    Linked p numFront numBack frontFree backFree' held mapping'
      (fun page => if page ∈ indices.map (· / p) then 0 else link page) := by
  have isBehind {page : Nat} : page ∈ ((behind mapping indices).map (· / p)).dedup ↔
      ∃ i ∈ indices, mapping i ≠ 0 ∧ link (i / p) = page := linked.mem_behind positive
  -- a page that is linked and touched has an index among the given ones
  have found {page : Nat} (has : link page ≠ 0) (touched : page ∈ indices.map (· / p)) :
      ∃ i ∈ indices, mapping i ≠ 0 ∧ i / p = page := by
    obtain ⟨i, member, rfl⟩ := mem_map.mp touched
    obtain ⟨j, samePage, isMapped⟩ := linked.backed _ has
    exact ⟨j, whole i member j (linked.mapped j isMapped).1 samePage, isMapped, samePage⟩
  constructor
  case frontNodup => exact linked.frontNodup
  case mem_front => exact linked.mem_front
  case held_page => exact linked.held_page
  case backNodup =>
    rw [back.nodup_iff, nodup_append]
    refine ⟨nodup_dedup _, linked.backNodup, ?_⟩
    rintro page member _ free rfl
    obtain ⟨i, -, -, isLink⟩ := isBehind.mp member
    exact ((linked.mem_back _).mp free).2 _ isLink
  case mem_back =>
    intro page
    rw [back.mem_iff, mem_append]
    constructor
    · rintro (member | free)
      · obtain ⟨i, inIndices, isMapped, rfl⟩ := isBehind.mp member
        have has := (linked.mapped i isMapped).2.1
        refine ⟨⟨Nat.pos_of_ne_zero has, linked.link_le _⟩, ?_⟩
        intro other isLink
        split at isLink
        · exact has isLink.symm
        · next untouched =>
          have same := linked.injective _ _ has isLink.symm
          exact untouched (same ▸ mem_map_of_mem inIndices)
      obtain ⟨range, unlinked⟩ := (linked.mem_back page).mp free
      refine ⟨range, ?_⟩
      intro other isLink
      split at isLink
      · omega
      · exact unlinked other isLink
    · rintro ⟨range, unlinked⟩
      by_cases free : page ∈ backFree
      · exact .inr free
      rw [linked.mem_back, and_iff_right range] at free
      push Not at free
      obtain ⟨other, isLink⟩ := free
      have touched : other ∈ indices.map (· / p) := by
        by_contra untouched
        exact unlinked other ((if_neg untouched).trans isLink)
      obtain ⟨i, member, isMapped, rfl⟩ := found (by omega) touched
      exact .inl (isBehind.mpr ⟨i, member, isMapped, isLink⟩)
  case link_le =>
    intro page
    split
    · exact Nat.zero_le _
    · exact linked.link_le page
  case injective =>
    intro page other has same
    split at has
    · exact absurd rfl has
    next untouched =>
      rw [if_neg untouched] at same
      split at same
      · exact absurd same has
      · exact linked.injective page other has same
  case mapped =>
    intro i isMapped
    rw [maps] at isMapped ⊢
    split at isMapped
    · exact absurd rfl isMapped
    next absent =>
      obtain ⟨isHeld, has, isIndex⟩ := linked.mapped i isMapped
      have untouched : i / p ∉ indices.map (· / p) := by
        intro touched
        obtain ⟨j, member, samePage⟩ := mem_map.mp touched
        exact absent (whole j member i isHeld samePage.symm)
      rw [if_neg absent, linkedIndex, if_neg untouched]
      exact ⟨isHeld, has, isIndex⟩
  case backed =>
    intro page has
    split at has
    · exact absurd rfl has
    next untouched =>
      obtain ⟨i, rfl, isMapped⟩ := linked.backed page has
      refine ⟨i, rfl, ?_⟩
      rw [maps, if_neg fun member => untouched (mem_map_of_mem member)]
      exact isMapped

theorem giveBack (allocated : ∀ i ∈ indices, ∃ j ∈ held, j / p = i / p)
    (unmapped : ∀ i ∈ indices, mapping i = 0)
    (front : frontFree'.Perm ((indices.map (· / p)).dedup ++ frontFree)) :
    Linked p numFront numBack frontFree' backFree (held.filter (· ∉ indices)) mapping link := by
  have touched {page : Nat} : page ∈ (indices.map (· / p)).dedup ↔ ∃ i ∈ indices, i / p = page := by
    rw [mem_dedup, mem_map]
  have unfree {page : Nat} (member : page ∈ (indices.map (· / p)).dedup) : page ∉ frontFree := by
    obtain ⟨i, inIndices, rfl⟩ := touched.mp member
    obtain ⟨j, isHeld, samePage⟩ := allocated i inIndices
    exact fun free => ((linked.mem_front _).mp free).2 j isHeld samePage
  constructor
  case frontNodup =>
    rw [front.nodup_iff, nodup_append]
    refine ⟨nodup_dedup _, linked.frontNodup, ?_⟩
    rintro page member _ free rfl
    exact unfree member free
  case mem_front =>
    intro page
    have wasFree := linked.mem_front page
    have inRange := linked.held_page
    simp only [mem_filter]
    grind
  case mapped =>
    intro i isMapped
    have := linked.mapped i isMapped
    grind
  case held_page => exact fun i kept => linked.held_page i (mem_of_mem_filter kept)
  case backNodup => exact linked.backNodup
  case mem_back => exact linked.mem_back
  case link_le => exact linked.link_le
  case injective => exact linked.injective
  case backed => exact linked.backed

end Cut

end Linked

end Engram.Lib
