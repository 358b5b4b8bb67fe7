import Engram.Restore.Clearing
import Engram.Scheduler.Abort
import Engram.Scheduler.Capacity
import Engram.Scheduler.Survival
import Engram.Tokenizer.Matching
import Engram.Recording.Tokens
import Engram.Snapshot.Calls
import Engram.Recording.Latest
import Engram.Tier.Durability
import Engram.Tier.Agreement
import Engram.Tier.Answers
import Engram.Tier.Demotion
import Engram.Scheduler.Selection
import Engram.Snapshot.Containment
import Engram.Tier.ManualSave
import Engram.Radix.Counting
import Engram.Radix.Units
import Engram.Radix.Lookups
import Engram.Alloc.SwaConservation
import Engram.Radix.Tracking
import Engram.Control.FanOut
import Engram.Sessions.Tree
import Engram.Sessions.Closing
import Engram.Gateway.HashRing
import Engram.Tier.Residency
import Engram.Agents.Memory
