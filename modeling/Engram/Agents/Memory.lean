import Engram.Agents.Execution

/-!
# The memory tools

`memory_store`, `memory_recall` and `memory_search` keep what they remember in the conversation
context. They are synchronous, so the engine runs each of them on a copy of it: a recall sees what
the context held before the conversation, and nothing that was stored in it
(`memory_remembers_iff`).
-/

namespace Engram.Agents

open List

abbrev Dict (α : Type) := List (Json × α)

structure ConversationContext where
  conversationId : Option Json := none
  memory : Option (Dict (Dict Json)) := none
  others : List (String × Json) := []

instance : Inhabited ConversationContext := ⟨{}⟩

inductive MemoryResult where
  | stored (message : String) (conversationId : Option Json)
  | notFound (message : String) (conversationId : Option Json)
  | value (key value category : Json) (conversationId : Option Json)
  | category (category : Json) (data : Dict Json) (conversationId : Option Json)
  | memory (data : Dict (Dict Json)) (conversationId : Option Json)
  | results (query : Json) (results : List (Json × Json × Json)) (conversationId : Option Json)

variable (python : Python)

section Dict

variable {α : Type}

def Dict.get? (dict : Dict α) (key : Json) : Option α :=
  (dict.find? (python.eq key ·.1)).map (·.2)

def Dict.set (dict : Dict α) (key : Json) (value : α) : Dict α :=
  if dict.any (python.eq key ·.1) then
    dict.map fun entry => if python.eq key entry.1 then (entry.1, value) else entry
  else dict ++ [(key, value)]

end Dict

def ConversationContext.id (context : ConversationContext) : Option Json :=
  if context.conversationId.isSome || context.memory.isSome || !context.others.isEmpty then
    context.conversationId
  else some (.string "unknown")

def argument (name : String) (parameters : List (String × Json)) : Option Json :=
  ((parameters.find? (·.1 == name)).map (·.2)).filter fun
    | .null => false
    | _ => true

def unhashable : Json → Outcome MemoryResult
  | .array _ => .raised "TypeError" "unhashable type: 'list'"
  | _ => .raised "TypeError" "unhashable type: 'dict'"

/-- The body of a tool, for a context that is there; `inTime` tells whether the worker ends
    before the timeout. -/
abbrev Body :=
  List (String × Json) → ConversationContext → Outcome MemoryResult × ConversationContext

def Body.function (body : Body) (inTime : Bool) (parameters : List (String × Json))
    (context : Option ConversationContext) : Outcome MemoryResult × Option ConversationContext :=
  if inTime then
    let (outcome, context) := body parameters (context.getD default)
    (outcome, some context)
  else (.timeout, context)

def memoryStore : Body := fun parameters context =>
  let key := (argument "key" parameters).getD .null
  let value := (argument "value" parameters).getD .null
  let category := (argument "category" parameters).getD (.string "general")
  let memory := context.memory.getD []
  let data := (Dict.get? python memory category).getD []
  if key.hashable then
    (.returned (.stored ("Stored '" ++ python.str key ++ "' in category '" ++
        python.str category ++ "'") context.id),
      { context with
        memory := some (Dict.set python memory category (Dict.set python data key value)) })
  else
    (unhashable key, { context with memory := some (Dict.set python memory category data) })

def memoryRecall : Body := fun parameters context =>
  let answer : Outcome MemoryResult :=
    match context.memory, argument "key" parameters, argument "category" parameters with
    | none, _, _ => .returned (.notFound "No memory data available" context.id)
    | some memory, some key, some category =>
      if !category.hashable then unhashable category
      else
        match Dict.get? python memory category with
        | none => .returned (.notFound ("Key '" ++ python.str key ++ "' not found in category '" ++
            python.str category ++ "'") context.id)
        | some data =>
          if !key.hashable then unhashable key
          else
            match Dict.get? python data key with
            | none => .returned (.notFound ("Key '" ++ python.str key ++
                "' not found in category '" ++ python.str category ++ "'") context.id)
            | some value => .returned (.value key value category context.id)
    | some memory, none, some category =>
      if !category.hashable then unhashable category
      else
        match Dict.get? python memory category with
        | none => .returned (.notFound ("Category '" ++ python.str category ++ "' not found")
            context.id)
        | some data => .returned (.category category data context.id)
    | some memory, _, none => .returned (.memory memory context.id)
  (answer, context)

/-- `if category`. -/
def Json.truthy : Json → Bool
  | .null => false
  | .bool value => value
  | .number value => value != 0
  | .string text => !text.isEmpty
  | .array items => !items.isEmpty
  | .object fields => !fields.isEmpty

def searchCategory (query category : Json) :
    Dict Json → Option (List (Json × Json × Json))
  | [] => some []
  | (key, value) :: data =>
    match query, key with
    | .string wanted, .string text => do
      let results ← searchCategory query category data
      let matches_ text := decide ((python.lower wanted).toList <:+: (python.lower text).toList)
      if matches_ text || matches_ (python.str value)
      then some ((category, key, value) :: results) else some results
    | _, _ => none

def memorySearch : Body := fun parameters context =>
  let query := (argument "query" parameters).getD .null
  let answer : Outcome MemoryResult :=
    match context.memory with
    | none => .returned (.notFound "No memory data available" none)
    | some memory =>
      match (argument "category" parameters).filter Json.truthy with
      | some category =>
        if !category.hashable then unhashable category
        else
          match searchCategory python query category
              ((Dict.get? python memory category).getD []) with
          | some results => .returned (.results query results context.id)
          | none => .raised "AttributeError" "object has no attribute 'lower'"
      | none =>
        match memory.mapM fun entry => searchCategory python query entry.1 entry.2 with
        | some results => .returned (.results query results.flatten context.id)
        | none => .raised "AttributeError" "object has no attribute 'lower'"
  (answer, context)

abbrev MemoryTool := Tool Bool ConversationContext MemoryResult

def memoryStoreTool : MemoryTool where
  name := "memory_store"
  parameters := [{ name := "key" }, { name := "value" },
    { name := "category", required := false
      enum := some (["general", "user_info", "preferences", "facts", "tasks"].map .string) }]
  function := (memoryStore python).function
  requiresConversationContext := true

def memoryRecallTool : MemoryTool where
  name := "memory_recall"
  parameters := [{ name := "key", required := false }, { name := "category", required := false }]
  function := (memoryRecall python).function
  requiresConversationContext := true

def memorySearchTool : MemoryTool where
  name := "memory_search"
  parameters := [{ name := "query" }, { name := "category", required := false }]
  function := (memorySearch python).function
  requiresConversationContext := true

def memoryEngine : ToolExecutionEngine Bool ConversationContext MemoryResult where
  registry := ⟨[memoryStoreTool python, memoryRecallTool python, memorySearchTool python], by
    simp [memoryStoreTool, memoryRecallTool, memorySearchTool]⟩

/-- The calls of a conversation with one context, each with its answer. -/
def transcript : Stats → Option ConversationContext → List (ToolCall Bool) →
    List (ToolCall Bool × Except PyError (ToolExecutionResult MemoryResult))
  | _, _, [] => []
  | stats, context, call :: calls =>
    let (stats, context, result) := (memoryEngine python).execute python stats context call
    (call, result) :: transcript stats context calls

/-! ### What a recall answers -/

def MemoryResult.entries : MemoryResult → List (Json × Json)
  | .value key held _ _ => [(key, held)]
  | .category _ data _ => data
  | .memory data _ => data.flatMap (·.2)
  | .results _ found _ => found.map (·.2)
  | _ => []

def Tells (k v : Json) (entries : List (Json × Json)) : Prop :=
  let isKey key := key = k ∨ python.eq k key = true
  (∃ entry ∈ entries, isKey entry.1 ∧ entry.2 = v) ∧ ∀ entry ∈ entries, isKey entry.1

def ToolCall.fields (call : ToolCall Bool) : List (String × Json) :=
  match call.parameters with
  | .object fields => fields
  | _ => []

/-- The call stores `v` under `k` in category `c`. -/
structure Stores (call : ToolCall Bool) (k v c : Json) : Prop where
  name : call.name = .string "memory_store"
  parameters : call.parameters = .object call.fields
  key : argument "key" call.fields = some k
  value : argument "value" call.fields = some v
  category : (argument "category" call.fields).getD (.string "general") = c

structure Recalls (call : ToolCall Bool) (k c : Json) : Prop where
  name : call.name = .string "memory_recall"
  parameters : call.parameters = .object call.fields
  known : ∀ field ∈ call.fields, field.1 = "key" ∨ field.1 = "category"
  key : argument "key" call.fields = some k
  category : argument "category" call.fields = none ∨ argument "category" call.fields = some c

def Succeeded (Q : MemoryResult → Prop)
    (answer : Except PyError (ToolExecutionResult MemoryResult)) : Prop :=
  ∃ result memory, answer = .ok result ∧ result.status = .success ∧
    result.result = some memory ∧ Q memory

/-- Call `j` recalls what call `i` has stored, and no call between has stored it anew. -/
structure Covered {α : Type} (calls : List α) (call : α → ToolCall Bool) (succeeded : α → Prop)
    (i j : Nat) (asked : α) (k v c : Json) : Prop where
  before : i < j
  stored : ∃ store, calls[i]? = some store ∧ Stores (call store) k v c ∧ succeeded store
  recalled : calls[j]? = some asked ∧ Recalls (call asked) k c
  kept : ∀ m other, i < m → m < j → calls[m]? = some other → ∀ k' v' c',
    Stores (call other) k' v' c' → python.eq k k' = true → python.eq c c' = true →
      ¬ succeeded other

/-- Every covered recall answers with what was stored. -/
def Remembers (log : List (ToolCall Bool × Except PyError (ToolExecutionResult MemoryResult))) :
    Prop :=
  ∀ i j asked k v c, Covered python log (·.1) (Succeeded (fun _ => True) ·.2) i j asked k v c →
    Succeeded (Tells python k v ·.entries) asked.2

/-- A store that the tool accepts and that ends in time. -/
def WellFormed (call : ToolCall Bool) : Prop :=
  call.world = true ∧
    (memoryStoreTool python).validateParameters python call.parameters = .ok true ∧
    ∀ k, argument "key" call.fields = some k → k.hashable = true

/-- The recall ends in time, and the memory it finds holds what it is asked for already. -/
def Known (context : Option ConversationContext) (call : ToolCall Bool) (k v : Json) : Prop :=
  call.world = true ∧ ∃ memory, (context.getD default).memory = some memory ∧
    match argument "category" call.fields with
    | some category => category.hashable = true ∧ ∃ data,
        Dict.get? python memory category = some data ∧ Dict.get? python data k = some v
    | none => Tells python k v (memory.flatMap (·.2))

/-! ### Answers do not depend on what was stored -/

variable {python} {context : Option ConversationContext} {call : ToolCall Bool}
  {fields : List (String × Json)}

theorem transcript_eq (stats : Stats) (context : Option ConversationContext)
    (calls : List (ToolCall Bool)) :
    transcript python stats context calls = calls.map fun call =>
      (call, ((memoryEngine python).execute python {} context call).2.2) := by
  induction calls generalizing stats with
  | nil => rfl
  | cons call calls ih =>
    have sync := (memoryEngine python).execute_of_sync python
      (by simp [memoryEngine, memoryStoreTool, memoryRecallTool, memorySearchTool]) stats context
        call
    simp only [transcript, map_cons, sync]
    rw [ih]

def Body.outcome (body : Body) (context : Option ConversationContext) (call : ToolCall Bool)
    (fields : List (String × Json)) : Outcome MemoryResult :=
  if call.world then (body fields (context.getD default)).1.fromWorker else .timeout

theorem execute_memoryTool {tool : MemoryTool} (body : Body)
    (found : (memoryEngine python).registry.get call.name = .ok (some tool))
    (function : tool.function = body.function) (sync : tool.isAsync = false)
    (requires : tool.requiresConversationContext = true)
    (parameters : call.parameters = .object fields)
    (valid : tool.validateParameters python call.parameters = .ok true) :
    ((memoryEngine python).execute python {} context call).2.2 =
      .ok ((memoryEngine python).report python { totalExecutions := 1 } call
        (body.outcome context call fields)).2 := by
  rw [parameters] at valid
  simp only [ToolExecutionEngine.execute, found, ToolExecutionEngine.executeTool, parameters, valid,
    requires, sync]
  congr 3
  unfold executeSync Body.outcome
  rw [function]
  cases call.world <;> rfl

theorem Body.outcome_returned_iff {body : Body} {memory : MemoryResult} :
    body.outcome context call fields = .returned memory ↔
      call.world = true ∧ (body fields (context.getD default)).1 = .returned memory := by
  unfold Body.outcome
  cases call.world with
  | false => simp
  | true => cases (body fields (context.getD default)).1 <;> simp [Outcome.fromWorker]

theorem succeeded_report_iff {body : Body} {Q : MemoryResult → Prop}
    {engine : ToolExecutionEngine Bool ConversationContext MemoryResult} {stats : Stats} :
    Succeeded Q (.ok (engine.report python stats call (body.outcome context call fields)).2) ↔
      call.world = true ∧
        ∃ memory, (body fields (context.getD default)).1 = .returned memory ∧ Q memory := by
  have reported : ∀ outcome, Succeeded Q (.ok (engine.report python stats call outcome).2) ↔
      ∃ memory, outcome = .returned memory ∧ Q memory := by
    intro outcome
    cases outcome <;> simp [Succeeded, ToolExecutionEngine.report]
  simp only [reported, Body.outcome_returned_iff, and_assoc, exists_and_left]

theorem succeeded_store_iff (context : Option ConversationContext) {k v c : Json}
    (stores : Stores call k v c) :
    Succeeded (fun _ => True) ((memoryEngine python).execute python {} context call).2.2 ↔
      WellFormed python call := by
  have found : (memoryEngine python).registry.get call.name =
      .ok (some (memoryStoreTool python)) := by
    rw [stores.name]
    rfl
  by_cases valid : (memoryStoreTool python).validateParameters python call.parameters = .ok true
  · have body : (∃ memory, (memoryStore python call.fields (context.getD default)).1 =
        .returned memory ∧ True) ↔ k.hashable = true := by
      simp only [memoryStore, stores.key]
      cases k <;> simp [Json.hashable, unhashable]
    rw [execute_memoryTool (memoryStore python) found rfl rfl rfl stores.parameters valid,
      succeeded_report_iff, body]
    simp [WellFormed, valid, stores.key]
  refine iff_of_false ?_ (fun wellFormed => valid wellFormed.2.1)
  rintro ⟨result, memory, answered, success, -⟩
  simp only [ToolExecutionEngine.execute, found, ToolExecutionEngine.executeTool] at answered
  split at answered
  · cases answered
  · contradiction
  · cases answered
    cases success

theorem recall_valid (known : ∀ field ∈ fields, field.1 = "key" ∨ field.1 = "category") :
    (memoryRecallTool python).validateParameters python (.object fields) = .ok true := by
  have accepted : fields.all (fun field => ((memoryRecallTool python).parameters.find?
      (·.name == field.1)).any (·.accepts python field.2)) = true := by
    rw [all_eq_true]
    rintro ⟨name, value⟩ member
    rcases known _ member with named | named <;> simp only at named <;> subst named <;> rfl
  exact congrArg Except.ok accepted

theorem succeeded_recall_iff {k v c : Json} (recalls : Recalls call k c)
    (hashable : k.hashable = true) :
    Succeeded (Tells python k v ·.entries)
        ((memoryEngine python).execute python {} context call).2.2 ↔
      Known python context call k v := by
  have found : (memoryEngine python).registry.get call.name =
      .ok (some (memoryRecallTool python)) := by
    rw [recalls.name]
    rfl
  rw [execute_memoryTool (memoryRecall python) found rfl rfl rfl recalls.parameters
    (recalls.parameters ▸ recall_valid recalls.known), succeeded_report_iff]
  refine and_congr_right fun _ => ?_
  simp only [memoryRecall, recalls.key]
  cases (context.getD default).memory with
  | none => simp [MemoryResult.entries, Tells]
  | some memory =>
    rcases recalls.category with none | some
    · simp [none, MemoryResult.entries]
    simp only [some]
    cases c.hashable with
    | false => cases c <;> simp [unhashable]
    | true =>
      simp only [hashable]
      cases inCategory : Dict.get? python memory c with
      | none => simp [MemoryResult.entries, Tells, inCategory]
      | some data =>
        cases held : Dict.get? python data k with
        | none => simp [MemoryResult.entries, Tells, inCategory, held]
        | some value => simp [MemoryResult.entries, Tells, inCategory, held, @eq_comm _ v value]

/-- The recalls of a conversation answer with what was stored, exactly if each of them finds it
    in the context that the conversation started with. -/
theorem memory_remembers_iff (context : Option ConversationContext) (calls : List (ToolCall Bool)) :
    Remembers python (transcript python {} context calls) ↔
      ∀ i j asked k v c, Covered python calls id (WellFormed python) i j asked k v c →
        Known python context asked k v := by
  -- calls do not disturb each other, so the transcript is read call by call
  have covered : ∀ i j asked k v c,
      Covered python (transcript python {} context calls) (·.1)
        (Succeeded (fun _ => True) ·.2) i j asked k v c ↔
        asked.2 = ((memoryEngine python).execute python {} context asked.1).2.2 ∧
          Covered python calls id (WellFormed python) i j asked.1 k v c := by
    rintro i j ⟨asked, answer⟩ k v c
    rw [transcript_eq]
    simp only
    constructor
    · rintro ⟨before, ⟨store, stored⟩, recalled, kept⟩
      simp only [getElem?_map, Option.map_eq_some_iff] at stored recalled kept
      obtain ⟨⟨call, here, ⟨⟩⟩, stores, succeeded⟩ := stored
      obtain ⟨⟨_, there, ⟨⟩⟩, recalls⟩ := recalled
      refine ⟨rfl, before, ⟨call, here, stores, (succeeded_store_iff context stores).mp succeeded⟩,
        ⟨there, recalls⟩, ?_⟩
      intro m other after until_ held k' v' c' stores sameKey sameCategory wellFormed
      exact kept m (other, _) after until_ ⟨other, held, rfl⟩ k' v' c' stores sameKey sameCategory
        ((succeeded_store_iff context stores).mpr wellFormed)
    rintro ⟨rfl, before, ⟨store, here, stores, wellFormed⟩, ⟨there, recalls⟩, kept⟩
    refine ⟨before, ⟨(store, _), ?_, stores, (succeeded_store_iff context stores).mpr wellFormed⟩,
      ⟨?_, recalls⟩, ?_⟩
    · rw [getElem?_map, here]
      rfl
    · rw [getElem?_map, there]
      rfl
    · rintro m ⟨other, answer⟩ after until_ held k' v' c' stores sameKey sameCategory succeeded
      rw [getElem?_map, Option.map_eq_some_iff] at held
      obtain ⟨_, held, ⟨⟩⟩ := held
      exact kept m other after until_ held k' v' c' stores sameKey sameCategory
        ((succeeded_store_iff context stores).mp succeeded)
  constructor
  · intro remembers i j asked k v c held
    obtain ⟨store, -, stores, wellFormed⟩ := held.stored
    refine (succeeded_recall_iff held.recalled.2 (wellFormed.2.2 k stores.key)).mp ?_
    exact remembers i j (asked, _) k v c ((covered i j _ k v c).mpr ⟨rfl, held⟩)
  intro known i j asked k v c held
  obtain ⟨answer, held⟩ := (covered i j asked k v c).mp held
  obtain ⟨store, -, stores, wellFormed⟩ := held.stored
  rw [answer]
  exact (succeeded_recall_iff held.recalled.2 (wellFormed.2.2 k stores.key)).mpr
    (known i j asked.1 k v c held)

/-- A name is stored and recalled in the same category of one context, and is not there. -/
theorem memory_store_is_lost :
    let python : Python :=
      { eq := fun a b => match a, b with
          | .string a, .string b => a == b
          | _, _ => false
        str := fun
          | .string text => text
          | _ => ""
        lower := id }
    let context : ConversationContext := { conversationId := some (.string "c") }
    let store : ToolCall Bool :=
      { name := .string "memory_store", world := true
        parameters := .object [("key", .string "name"), ("value", .string "Ada")] }
    let asked : ToolCall Bool :=
      { name := .string "memory_recall", world := true
        parameters := .object [("key", .string "name"), ("category", .string "general")] }
    ¬ Remembers python (transcript python {} (some context) [store, asked]) := by
  intro python context store asked remembers
  have covered : Covered python (transcript python {} (some context) [store, asked]) (·.1)
      (Succeeded (fun _ => True) ·.2) 0 1 (asked, _) (.string "name") (.string "Ada")
      (.string "general") :=
    ⟨by decide, ⟨(store, _), rfl, ⟨rfl, rfl, rfl, rfl, rfl⟩, ⟨_, _, rfl, rfl, rfl, trivial⟩⟩,
      ⟨rfl, ⟨rfl, rfl, by simp [asked, ToolCall.fields], rfl, .inr rfl⟩⟩,
      fun m other after before => by omega⟩
  obtain ⟨result, memory, answered, -, told, ⟨entry, member, -⟩, -⟩ := remembers _ _ _ _ _ _ covered
  cases answered
  cases told
  cases member

end Engram.Agents
