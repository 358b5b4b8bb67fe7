import Engram.Lib.OrderedDict

/-!
# The conversation tracker

`ConversationTracker` records in which tier each conversation is and when it was last
accessed. Nothing else of `ConversationState` is read by the tier manager.
-/

namespace Engram.Tier

open Lib

inductive ConversationTier where
  /-- in VRAM -/
  | active
  /-- in host RAM -/
  | warm
  /-- on disk -/
  | cold
  /-- deleted -/
  | archived
deriving DecidableEq, Repr

def ConversationTier.parse : String → Option ConversationTier
  | "active" => some .active
  | "warm" => some .warm
  | "cold" => some .cold
  | "archived" => some .archived
  | _ => none

structure ConversationState where
  tier : ConversationTier
  lastAccessTime : Nat
deriving DecidableEq, Repr

/-- Seconds of inactivity after which a conversation leaves its tier. -/
structure Timeouts where
  activeTimeout : Int := 300
  warmTimeout : Int := 1800
  coldRetention : Int := 604800
deriving DecidableEq, Repr

structure Transitions where
  activeToWarm : List String
  warmToCold : List String
  coldToArchived : List String
deriving DecidableEq, Repr

structure ConversationTracker where
  conversations : OrderedDict String ConversationState := .empty
deriving DecidableEq

namespace ConversationTracker

def getState (conversationId : String) (tracker : ConversationTracker) :
    Option ConversationState :=
  tracker.conversations.lookup conversationId

def getTier (conversationId : String) (tracker : ConversationTracker) : Option ConversationTier :=
  (tracker.getState conversationId).map ConversationState.tier

def registerConversation (conversationId : String) (tier : ConversationTier) (now : Nat)
    (tracker : ConversationTracker) : ConversationTracker :=
  { conversations :=
      tracker.conversations.insert conversationId { tier, lastAccessTime := now } }

def markAccessed (conversationId : String) (now : Nat) (tracker : ConversationTracker) :
    ConversationTracker :=
  match tracker.getState conversationId with
  | none => tracker
  | some state =>
    { conversations :=
        tracker.conversations.insert conversationId { state with lastAccessTime := now } }

def transitionTier (conversationId : String) (newTier : ConversationTier)
    (tracker : ConversationTracker) : Bool × ConversationTracker :=
  match tracker.getState conversationId with
  | none => (false, tracker)
  | some state =>
    if state.tier = newTier then (true, tracker)
    else
      (true, { conversations :=
        tracker.conversations.insert conversationId { state with tier := newTier } })

def idle (tier : ConversationTier) (timeout : Int) (now : Nat) (tracker : ConversationTracker) :
    List String :=
  (tracker.conversations.items.filter (fun item =>
    item.2.tier = tier ∧ timeout < now - item.2.lastAccessTime)).map Prod.fst

def checkTransitionsNeeded (timeouts : Timeouts) (now : Nat) (tracker : ConversationTracker) :
    Transitions where
  activeToWarm := tracker.idle .active timeouts.activeTimeout now
  warmToCold := tracker.idle .warm timeouts.warmTimeout now
  coldToArchived := tracker.idle .cold timeouts.coldRetention now

/-! ### What the operations do to the tiers -/

@[simp] theorem getTier_registerConversation (cid other : String)
    (tier : ConversationTier) (now : Nat) (tracker : ConversationTracker) :
    (tracker.registerConversation cid tier now).getTier other =
      if other = cid then some tier else tracker.getTier other := by
  simp only [getTier, getState, registerConversation, OrderedDict.lookup_insert]
  split
  · rfl
  · rfl

@[simp] theorem getTier_markAccessed (cid other : String) (now : Nat)
    (tracker : ConversationTracker) :
    (tracker.markAccessed cid now).getTier other = tracker.getTier other := by
  unfold markAccessed
  split
  · rfl
  · next state registered =>
    simp only [getTier, getState, OrderedDict.lookup_insert]
    split
    · next same =>
      subst same
      rw [getState] at registered
      simp [registered]
    · rfl

theorem getTier_transitionTier (cid other : String) (newTier : ConversationTier)
    (tracker : ConversationTracker) :
    (tracker.transitionTier cid newTier).2.getTier other =
      if other = cid ∧ tracker.getTier cid ≠ none then some newTier
      else tracker.getTier other := by
  unfold transitionTier
  cases registered : tracker.getState cid with
  | none => simp [getTier, registered]
  | some state =>
    have present : tracker.getTier cid = some state.tier := by
      rw [getTier, registered, Option.map_some]
    simp only [present, ne_eq, reduceCtorEq, not_false_eq_true, and_true]
    split
    · next already =>
      split
      · next same => rw [same, present, already]
      · rfl
    · simp only [getTier, getState, OrderedDict.lookup_insert]
      split
      · rfl
      · rfl

end ConversationTracker

end Engram.Tier
