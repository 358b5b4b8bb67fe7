import Engram.Lib.Forest

/-!
# What a store and its clients hold

Items are kept in a store or by its clients. However they move between the store and one client at
a time, what the store and the clients have of an item makes up the same total. The rules are for
one client that changes, comes or goes.
-/

namespace Engram.Lib

variable {ι κ : Type} {total store store' : κ → Nat} {live : List ι} {own own' : ι → κ → Nat}

def Accounted (total store : κ → Nat) (live : List ι) (own : ι → κ → Nat) : Prop :=
  ∀ k, store k + tally live (own · k) = total k

namespace Accounted

theorem rearrange (accounted : Accounted total store live own) (same : ∀ k, store' k = store k) :
    Accounted total store' live own := by
  intro k
  rw [same]
  exact accounted k

variable {id : ι}

theorem arrive (accounted : Accounted total store live own) (nothing : ∀ k, own' id k = 0)
    (others : ∀ other ∈ live, own' other = own other) :
    Accounted total store (id :: live) own' := by
  intro k
  have same : tally live (own' · k) = tally live (own · k) :=
    tally_congr fun other member => congrFun (others other member) k
  rw [tally_cons, nothing, same, Nat.zero_add]
  exact accounted k

variable [DecidableEq ι]

section

variable (accounted : Accounted total store live own)

include accounted

theorem le_total (member : id ∈ live) (k : κ) :
    store k + own id k ≤ total k := by
  have whole := accounted k
  have part := tally_erase member (own · k)
  omega

theorem exchange (distinct : live.Nodup) (member : id ∈ live)
    (others : ∀ other ∈ live, other ≠ id → own' other = own other)
    (turn : ∀ k, store' k + own' id k = store k + own id k) :
    Accounted total store' live own' := by
  intro k
  have whole := accounted k
  have change := tally_change distinct member
    (f := (own · k)) (g := (own' · k)) fun other isLive different =>
      congrFun (others other isLive different) k
  have step := turn k
  omega

theorem leave (member : id ∈ live) (others : ∀ other ∈ live.erase id, own' other = own other)
    (turn : ∀ k, store' k = store k + own id k) :
    Accounted total store' (live.erase id) own' := by
  intro k
  have whole := accounted k
  have part := tally_erase member (own · k)
  have same : tally (live.erase id) (own' · k) = tally (live.erase id) (own · k) :=
    tally_congr fun other isLive => congrFun (others other isLive) k
  rw [turn]
  omega

end

end Accounted

end Engram.Lib
