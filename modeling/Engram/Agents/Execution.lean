import Mathlib.Data.List.Infix

/-!
# The tool execution engine

The model answers with tool calls, the parser turns them into a name and parameters, and the
engine looks the tool up, validates the parameters and runs the function
(`executions_accounted_iff`). Name and parameters are whatever JSON the model wrote. A synchronous
tool runs in a process of its own, so what it does to the conversation context stays there.
-/

namespace Engram.Agents

open List

inductive Json where
  | null
  | bool (value : Bool)
  | number (value : Rat)
  | string (text : String)
  | array (items : List Json)
  | object (fields : List (String × Json))

/-- What Python knows about JSON values and text: `==`, `str` and `lower`. -/
structure Python where
  eq : Json → Json → Bool
  str : Json → String
  lower : String → String

inductive PyError where
  | typeError
  | attributeError
  deriving DecidableEq

structure ToolParameter where
  name : String
  required : Bool := true
  enum : Option (List Json) := none

/-- How the body of a tool ends. -/
inductive Outcome (ρ : Type) where
  | returned (result : ρ)
  | timeout
  | raised (type message : String)

structure Tool (ω κ ρ : Type) where
  name : String
  parameters : List ToolParameter
  function : ω → List (String × Json) → Option κ → Outcome ρ × Option κ
  requiresConversationContext : Bool := false
  isAsync : Bool := false

variable {ω κ ρ : Type} (python : Python)

/-! ### Validation -/

/-- `name in params`. -/
def contains (name : String) : Json → Except PyError Bool
  | .object fields => .ok (fields.any (·.1 == name))
  | .array items => .ok (items.any (python.eq (.string name)))
  | .string text => .ok (decide (name.toList <:+: text.toList))
  | _ => .error .typeError

def missesRequired (params : Json) : List ToolParameter → Except PyError Bool
  | [] => .ok false
  | param :: parameters =>
    if param.required then do
      if ← contains python param.name params then missesRequired params parameters else .ok true
    else missesRequired params parameters

def ToolParameter.accepts (param : ToolParameter) (value : Json) : Bool :=
  param.enum.all (·.any (python.eq value))

def Tool.validateParameters (tool : Tool ω κ ρ) (params : Json) : Except PyError Bool := do
  if ← missesRequired python params tool.parameters then .ok false
  else
    match params with
    | .object fields => .ok (fields.all fun (name, value) =>
        (tool.parameters.find? (·.name == name)).any (·.accepts python value))
    | _ => .error .attributeError

/-! ### Execution -/

inductive ToolExecutionStatus where
  | success
  | error
  | timeout
  | validationError
  deriving DecidableEq

structure ToolExecutionResult (ρ : Type) where
  toolName : Json
  status : ToolExecutionStatus
  result : Option ρ := none
  error : Option String := none

structure Stats where
  totalExecutions : Nat := 0
  successfulExecutions : Nat := 0
  failedExecutions : Nat := 0
  deriving DecidableEq

structure ToolRegistry (ω κ ρ : Type) where
  tools : List (Tool ω κ ρ)
  distinct : (tools.map (·.name)).Nodup

/-- A list or a dict is no dictionary key. -/
def Json.hashable : Json → Bool
  | .array _ | .object _ => false
  | _ => true

def ToolRegistry.get (registry : ToolRegistry ω κ ρ) (name : Json) :
    Except PyError (Option (Tool ω κ ρ)) :=
  if name.hashable then
    .ok (registry.tools.find? fun tool => match name with
      | .string name => tool.name == name
      | _ => false)
  else .error .typeError

structure ToolCall (ω : Type) where
  name : Json
  parameters : Json
  timeout : Option Rat := none
  world : ω

structure ToolExecutionEngine (ω κ ρ : Type) where
  registry : ToolRegistry ω κ ρ
  defaultTimeout : Rat := 30

def Outcome.fromWorker : Outcome ρ → Outcome ρ
  | .raised type message => .raised "RuntimeError" (type ++ ": " ++ message)
  | outcome => outcome

def executeSync (tool : Tool ω κ ρ) (world : ω) (parameters : List (String × Json))
    (context : Option κ) : Outcome ρ × Option κ :=
  ((tool.function world parameters context).1.fromWorker, context)

def executeAsync (tool : Tool ω κ ρ) (world : ω) (parameters : List (String × Json))
    (context : Option κ) : Outcome ρ × Option κ :=
  tool.function world parameters context

def Stats.failed (stats : Stats) : Stats :=
  { stats with failedExecutions := stats.failedExecutions + 1 }

def ToolExecutionEngine.report (engine : ToolExecutionEngine ω κ ρ) (stats : Stats)
    (call : ToolCall ω) : Outcome ρ → Stats × ToolExecutionResult ρ
  | .returned result =>
    ({ stats with successfulExecutions := stats.successfulExecutions + 1 },
      { toolName := call.name, status := .success, result := some result })
  | .timeout =>
    let timeout := if call.timeout.getD 0 = 0 then engine.defaultTimeout else call.timeout.getD 0
    (stats.failed,
      { toolName := call.name, status := .timeout
        error := some ("Execution timeout after " ++ python.str (.number timeout) ++ "s") })
  | .raised type message =>
    (stats.failed,
      { toolName := call.name, status := .error, error := some (type ++ ": " ++ message) })

def ToolExecutionEngine.executeTool [Inhabited κ] (engine : ToolExecutionEngine ω κ ρ)
    (stats : Stats) (context : Option κ) (call : ToolCall ω) (tool : Tool ω κ ρ) :
    Stats × Option κ × Except PyError (ToolExecutionResult ρ) :=
  match tool.validateParameters python call.parameters, call.parameters with
  | .error raised, _ => (stats, context, .error raised)
  | .ok true, .object parameters =>
    let given := if tool.requiresConversationContext then some (context.getD default) else none
    let (outcome, left) :=
      if tool.isAsync then executeAsync tool call.world parameters given
      else executeSync tool call.world parameters given
    -- without a context of its own the caller does not see the one made for the tool
    let context := if tool.requiresConversationContext then context.bind fun _ => left else context
    let (stats, result) := engine.report python stats call outcome
    (stats, context, .ok result)
  | .ok _, _ => (stats.failed, context, .ok
      { toolName := call.name, status := .validationError
        error := some "Parameter validation failed" })

def ToolExecutionEngine.execute [Inhabited κ] (engine : ToolExecutionEngine ω κ ρ) (stats : Stats)
    (context : Option κ) (call : ToolCall ω) :
    Stats × Option κ × Except PyError (ToolExecutionResult ρ) :=
  let stats := { stats with totalExecutions := stats.totalExecutions + 1 }
  match engine.registry.get call.name with
  | .error raised => (stats, context, .error raised)
  | .ok none => (stats.failed, context, .ok
      { toolName := call.name, status := .error
        error := some ("Tool '" ++ python.str call.name ++ "' not found in registry") })
  | .ok (some tool) => engine.executeTool python stats context call tool

/-- A sequence of executions, each with the context of its caller. An exception goes to that
    caller; the engine stays in use. -/
def ToolExecutionEngine.executeAll [Inhabited κ] (engine : ToolExecutionEngine ω κ ρ) :
    Stats → List (Option κ × ToolCall ω) → Stats × List (Except PyError (ToolExecutionResult ρ))
  | stats, [] => (stats, [])
  | stats, (context, call) :: calls =>
    let (stats, _, result) := engine.execute python stats context call
    let (stats, results) := engine.executeAll stats calls
    (stats, result :: results)

/-! ### Calls that raise -/

/-- The parameters are an object, or text or a list in which a required name is missing: then
    the validation ends before it asks for the items. -/
def Tool.Reads (tool : Tool ω κ ρ) : Json → Prop
  | .object _ => True
  | .array items => ∃ param ∈ tool.parameters, param.required = true ∧
      items.any (python.eq (.string param.name)) = false
  | .string text => ∃ param ∈ tool.parameters, param.required = true ∧
      ¬ param.name.toList <:+: text.toList
  | _ => False

def ToolRegistry.Takes (registry : ToolRegistry ω κ ρ) (call : ToolCall ω) : Prop :=
  call.name.hashable = true ∧
    ∀ tool, registry.get call.name = .ok (some tool) → tool.Reads python call.parameters

variable {python}

theorem missesRequired_of_contains {params : Json} {here : String → Bool}
    (total : ∀ name, contains python name params = .ok (here name))
    (parameters : List ToolParameter) :
    missesRequired python params parameters =
      .ok (parameters.any fun param => param.required && !here param.name) := by
  induction parameters with
  | nil => rfl
  | cons param parameters ih =>
    unfold missesRequired
    rw [any_cons, ih, total]
    cases param.required <;> cases here param.name <;> rfl

theorem missesRequired_error {params : Json}
    (raises : ∀ name, contains python name params = .error .typeError)
    (parameters : List ToolParameter) :
    missesRequired python params parameters = .ok false ∨
      missesRequired python params parameters = .error .typeError := by
  induction parameters with
  | nil => exact .inl rfl
  | cons param parameters ih =>
    unfold missesRequired
    split
    · rw [raises]
      exact .inr rfl
    · exact ih

theorem Tool.validateParameters_isOk_iff (tool : Tool ω κ ρ) (params : Json) :
    (tool.validateParameters python params).isOk = true ↔ tool.Reads python params := by
  -- a scalar fails at `in` or at `.items()`, a text or an array at `.items()` only
  have scalar : (∀ name, contains python name params = .error .typeError) →
      (∀ fields, params ≠ .object fields) →
      (tool.validateParameters python params).isOk = false := by
    intro raises other
    unfold validateParameters
    rcases missesRequired_error raises tool.parameters with misses | misses
    · rw [misses]
      cases params <;> first | rfl | exact absurd rfl (other _)
    · rw [misses]
      rfl
  have sequence : ∀ here : String → Bool, (∀ name, contains python name params = .ok (here name)) →
      (∀ fields, params ≠ .object fields) →
      (tool.validateParameters python params).isOk =
        tool.parameters.any fun param => param.required && !here param.name := by
    intro here total other
    unfold validateParameters
    rw [missesRequired_of_contains total]
    generalize (tool.parameters.any fun param => param.required && !here param.name) = misses
    cases misses <;> cases params <;> first | rfl | exact absurd rfl (other _)
  cases params with
  | null => simp [Reads, scalar (fun _ => rfl) (by simp)]
  | bool value => simp [Reads, scalar (fun _ => rfl) (by simp)]
  | number value => simp [Reads, scalar (fun _ => rfl) (by simp)]
  | string text =>
    rw [sequence _ (fun _ => rfl) (by simp)]
    simp [Reads]
  | array items =>
    rw [sequence _ (fun _ => rfl) (by simp)]
    simp [Reads]
  | object fields =>
    unfold validateParameters
    rw [missesRequired_of_contains (fun _ => rfl)]
    simp only [Reads, iff_true]
    generalize (tool.parameters.any _) = misses
    cases misses <;> rfl

/-! ### Accounts -/

structure Counts (stats stats' : Stats) (ended : Bool) : Prop where
  total : stats'.totalExecutions = stats.totalExecutions
  ended : stats'.successfulExecutions + stats'.failedExecutions =
    stats.successfulExecutions + stats.failedExecutions + ended.toNat

theorem ToolExecutionEngine.report_counts (engine : ToolExecutionEngine ω κ ρ) (stats : Stats)
    (call : ToolCall ω) (outcome : Outcome ρ) :
    Counts stats (engine.report python stats call outcome).1 true := by
  cases outcome with
  | returned result => exact ⟨rfl, Nat.succ_add ..⟩
  | timeout => exact ⟨rfl, rfl⟩
  | raised type message => exact ⟨rfl, rfl⟩

variable (python) [Inhabited κ] (engine : ToolExecutionEngine ω κ ρ)

theorem ToolExecutionEngine.executeTool_counts (stats : Stats) (context : Option κ)
    (call : ToolCall ω) (tool : Tool ω κ ρ) :
    Counts stats (engine.executeTool python stats context call tool).1
        (engine.executeTool python stats context call tool).2.2.isOk ∧
      ((engine.executeTool python stats context call tool).2.2.isOk = true ↔
        tool.Reads python call.parameters) := by
  rw [← tool.validateParameters_isOk_iff]
  unfold executeTool
  split
  · next raised validated =>
    rw [validated]
    exact ⟨⟨rfl, rfl⟩, .rfl⟩
  · next parameters validated _ =>
    rw [validated]
    exact ⟨engine.report_counts stats call _, .rfl⟩
  · next valid _ validated _ =>
    rw [validated]
    exact ⟨⟨rfl, rfl⟩, .rfl⟩

/-- Every call is counted once, and ends in a result exactly if the registry takes it. -/
theorem ToolExecutionEngine.execute_counts (stats : Stats) (context : Option κ)
    (call : ToolCall ω) :
    Counts { stats with totalExecutions := stats.totalExecutions + 1 }
        (engine.execute python stats context call).1
        (engine.execute python stats context call).2.2.isOk ∧
      ((engine.execute python stats context call).2.2.isOk = true ↔
        engine.registry.Takes python call) := by
  have hashable : (engine.registry.get call.name).isOk = call.name.hashable := by
    unfold ToolRegistry.get
    cases call.name.hashable <;> rfl
  unfold execute ToolRegistry.Takes
  rw [← hashable]
  cases found : engine.registry.get call.name with
  | error raised => exact ⟨⟨rfl, rfl⟩, by simp [Except.toBool]⟩
  | ok tool =>
    cases tool with
    | none => exact ⟨⟨rfl, rfl⟩, by simp [Except.toBool]⟩
    | some tool =>
      simpa [Except.toBool] using engine.executeTool_counts python
        { stats with totalExecutions := stats.totalExecutions + 1 } context call tool

/-- Over a sequence, what is missing in the account are the calls that raised. -/
theorem ToolExecutionEngine.executeAll_counts (stats : Stats)
    (calls : List (Option κ × ToolCall ω)) :
    (engine.executeAll python stats calls).1.totalExecutions +
        stats.successfulExecutions + stats.failedExecutions =
      stats.totalExecutions + (engine.executeAll python stats calls).1.successfulExecutions +
        (engine.executeAll python stats calls).1.failedExecutions +
        (engine.executeAll python stats calls).2.countP (!·.isOk) ∧
      ((engine.executeAll python stats calls).2.all (·.isOk) = true ↔
        ∀ call ∈ calls, engine.registry.Takes python call.2) := by
  induction calls generalizing stats with
  | nil => simp [executeAll]
  | cons first calls ih =>
    obtain ⟨context, call⟩ := first
    obtain ⟨⟨total, ended⟩, takes⟩ := engine.execute_counts python stats context call
    obtain ⟨later, all⟩ := ih (engine.execute python stats context call).1
    simp only [executeAll, all_cons, Bool.and_eq_true, all, takes]
    cases ok : (engine.execute python stats context call).2.2.isOk <;>
      simp [ok] at ended total ⊢ <;> omega

/-- Every call of a sequence ends in a result and the account comes out even, exactly if each
    call has a name that can be looked up and parameters its tool can read. -/
theorem executions_accounted_iff (engine : ToolExecutionEngine ω κ ρ)
    (calls : List (Option κ × ToolCall ω)) :
    let (stats, results) := engine.executeAll python {} calls
    ((∀ result ∈ results, result.isOk = true) ∧
        stats.totalExecutions = stats.successfulExecutions + stats.failedExecutions) ↔
      ∀ call ∈ calls, engine.registry.Takes python call.2 := by
  obtain ⟨account, takes⟩ := engine.executeAll_counts python {} calls
  simp only [← takes, all_eq_true, and_iff_left_iff_imp]
  intro returned
  have none : (engine.executeAll python {} calls).2.countP (!·.isOk) = 0 :=
    countP_eq_zero.mpr fun result member => by simp [returned result member]
  simp only [none] at account
  omega

/-! ### Synchronous tools -/

/-- A synchronous tool leaves the context of the caller alone, and its answer does not depend
    on the statistics. -/
theorem ToolExecutionEngine.execute_of_sync
    (sync : ∀ tool ∈ engine.registry.tools, tool.isAsync = false) (stats : Stats)
    (context : Option κ) (call : ToolCall ω) :
    (engine.execute python stats context call).2 =
      (context, (engine.execute python {} context call).2.2) := by
  have reported : ∀ before before' outcome, (engine.report python before call outcome).2 =
      (engine.report python before' call outcome).2 := by
    intro before before' outcome
    cases outcome <;> rfl
  unfold execute
  cases found : engine.registry.get call.name with
  | error raised => rfl
  | ok tool =>
    cases tool with
    | none => rfl
    | some tool =>
      have here : tool.isAsync = false := by
        unfold ToolRegistry.get at found
        split at found
        · exact sync tool (mem_of_find?_eq_some (Except.ok.inj found))
        · cases found
      simp only [executeTool, here]
      split
      · rfl
      · cases tool.requiresConversationContext with
        | false => exact congrArg (fun result => (context, Except.ok result)) (reported _ _ _)
        | true =>
          rw [reported _ { totalExecutions := 1 }]
          cases context <;> rfl
      · rfl

/-- `{"tool": "calculator", "parameters": null}` and `{"tool": ["calculator"]}`: the calls are
    counted, and neither as a success nor as a failure. -/
theorem calculator_call_raises :
    let python : Python := ⟨fun _ _ => false, fun _ => "", id⟩
    let calculator : Tool Unit Unit Unit :=
      { name := "calculator", parameters := [{ name := "expression" }]
        function := fun _ _ context => (.returned (), context) }
    let engine : ToolExecutionEngine Unit Unit Unit := ⟨⟨[calculator], by simp⟩, 30⟩
    (engine.executeAll python {} [(none, ⟨.string "calculator", .null, none, ()⟩)]) =
        (⟨1, 0, 0⟩, [.error .typeError]) ∧
      (engine.executeAll python {} [(none, ⟨.array [.string "calculator"], .object [], none, ()⟩)])
        = (⟨1, 0, 0⟩, [.error .typeError]) := by
  exact ⟨rfl, rfl⟩

end Engram.Agents
