import Msb.Agent.Gate

/-!
# Scoped lockdown on two paths

`tools/runtime.py` runs the tools of `/chat` (`_run_governed`), `SafeProvider` those of an agent
task. Both ask the kill switch, but not with the same keys: the first asks for the tool and the
tenant, the second for the capability of the tool in the place of the tool, and for no agent or
tenant.

* `runGoverned_executes_iff` — when `_run_governed` calls the executor
* `scopes_hold_iff` — when a call in an armed scope is stopped
-/

namespace Agent

open Py Governance Machine

/-! ## The registry -/

/-- The part of a `ToolDef` that the perimeter reads. -/
structure ToolDef where
  toolId : Str
  requiredCapabilities : List Str
  approvalRequired : Bool

/-- The tools that ask for no capability. -/
def readTools : List Str :=
  [lit "search_vault", lit "vault_lint", lit "vault_read", lit "codegraph.explore",
    lit "codegraph.context", lit "codegraph.impact", lit "codegraph.rename", lit "memory.recall",
    lit "context.compose", lit "moie.analyze"]

/-- The tools that write to the vault. -/
def vaultTools : List Str :=
  [lit "vault_write", lit "vault_append", lit "vault_patch", lit "vault_delete", lit "vault_move",
    lit "vault_stage_draft", lit "vault_promote_draft"]

/-- `TOOLS` -/
def tools : List ToolDef :=
  readTools.map (fun toolId => ⟨toolId, [], false⟩) ++
    vaultTools.map (fun toolId => ⟨toolId, [lit "vault.write"], false⟩) ++
    [⟨lit "memory.store", [lit "memory.write"], false⟩,
      ⟨lit "factory.run", [lit "factory.run"], false⟩]

/-- `TOOLS.get(tool_id)` -/
def findTool (toolId : Str) : Option ToolDef := tools.find? fun td => td.toolId = toolId

/-! ## `_run_governed` -/

/-- What `_run_governed` is called with. -/
structure GovernedCall where
  toolId : Str
  args : List (PyKey × PyVal)
  granted : List Str
  approved : List Str
  tenant : Str
  session : Str
  actorId : Option Str

/-- The switch that the call builds: it may fail to be built, or fail to be read. -/
inductive SwitchAccess where
  | failed (message : Str)
  | opened (switch : KillSwitch) (readable : Bool)

/-- `_killswitch_block_reason` -/
def killswitchBlockReason (access : SwitchAccess) (toolId tenant : Str) : Option Str :=
  match access with
  | .failed message => some (lit "killswitch unreadable, failing closed: " ++ message)
  | .opened switch readable =>
    if switch.isArmed readable then some (lit "kill switch armed (global)")
    else if switch.isBlocked readable .tool toolId then
      some (lit "kill switch armed for tool scope: " ++ toolId)
    else if switch.isBlocked readable .tenant tenant then
      some (lit "kill switch armed for tenant scope: " ++ tenant)
    else none

/-- What the audit record says. -/
inductive GovernedVerdict where
  | allowed
  | denied
  | approvalRequired
  | unknown
  | blocked
  | error
  deriving DecidableEq

/-- `_run_governed` up to the executor: the refusal and its verdict, or the way is free. The
executors are the functions of a module; `executors` says which tool has one. -/
def governedRefusal (executors : Str → Bool) (access : SwitchAccess) (call : GovernedCall) :
    Option (GovernedVerdict × Str) :=
  match findTool call.toolId with
  | none => some (.unknown, lit "[tool-error] unknown tool: " ++ call.toolId)
  | some td =>
    match killswitchBlockReason access call.toolId call.tenant with
    | some reason => some (.blocked, lit "[blocked] tool " ++ call.toolId ++ lit ": " ++ reason)
    | none =>
      if td.approvalRequired && !call.approved.contains call.toolId then
        some (.approvalRequired,
          lit "[approval-required] tool " ++ call.toolId ++ lit " requires operator approval")
      else
        match td.requiredCapabilities.filter fun c => !call.granted.contains c with
        | [] =>
          if executors call.toolId then none
          else some (.error, lit "[tool-error] no executor registered for " ++ call.toolId)
        | missing => some (.denied, lit "[denied] tool " ++ call.toolId ++
            lit " requires capabilities: " ++ (lit ", ").intercalate missing)

/-- `_run_governed`: what it returns, and whether the executor was called. -/
def runGoverned (executors : Str → Bool) (execute : GovernedCall → Except PyError Str)
    (access : SwitchAccess) (call : GovernedCall) : Except PyError (GovernedVerdict × Str) × Bool :=
  match governedRefusal executors access call with
  | some outcome => (.ok outcome, false)
  | none => ((execute call).map fun result => (.allowed, result), true)

/-! ## Calls and their scopes -/

/-- A tool call on one of the two paths. The agent and the tenant of a task are those of the run
that the `SafeProvider` was built for. -/
inductive PathCall where
  | governed (executors : Str → Bool) (call : GovernedCall)
  | agentTask (self : SafeProvider) (name : Str) (task : Task) (agentId : Option Str)
    (tenantId : Str)

namespace PathCall

def tool : PathCall → Str
  | .governed _ call => call.toolId
  | .agentTask _ name _ _ _ => name

def agent : PathCall → Option Str
  | .governed _ call => call.actorId
  | .agentTask _ _ _ agentId _ => agentId

def tenant : PathCall → Str
  | .governed _ call => call.tenant
  | .agentTask _ _ _ _ tenantId => tenantId

/-- The call is one of the tool, on behalf of the agent, or for the tenant of the scope. -/
def Belongs (c : PathCall) : ScopeType → Str → Prop
  | .tool, scopeId => c.tool = scopeId
  | .agent, scopeId => c.agent = some scopeId
  | .tenant, scopeId => c.tenant = scopeId
  | _, _ => False

/-- The call reaches the executor, or the wrapped provider. -/
def Executed (switch : KillSwitch) (readable : Bool) : PathCall → Prop
  | .governed executors call =>
    (runGoverned executors (fun _ => .ok []) (.opened switch readable) call).2 = true
  | .agentTask self name task _ _ =>
    (self.attempt ⟨some ⟨switch, readable⟩, .ok .none⟩ name task).Delegated

/-- What else stops a call: the global switch, or a switch that cannot be read; on the one path the
other gates of `_run_governed`, on the other the tool scope of the capability, and the gate. -/
def Stopped (es : List SwitchEvent) (switch : KillSwitch) (readable : Bool) : PathCall → Prop
  | .governed executors call =>
    switch.isArmed readable = true ∨ ∀ td, findTool call.toolId = some td →
      (td.approvalRequired = true ∧ call.toolId ∉ call.approved) ∨
      (∃ c ∈ td.requiredCapabilities, c ∉ call.granted) ∨ executors call.toolId = false
  | .agentTask self name task _ _ =>
    switch.isArmed readable = true ∨ ArmedBy es .tool (task.capabilityOf name) ∨
      ¬ Admissible (self.gateCall name task)

/-- **Lockdown holds for a call**: in an armed scope, it is not executed. -/
def Locked (es : List SwitchEvent) (switch : KillSwitch) (readable : Bool) (c : PathCall) : Prop :=
  ∀ scopeType scopeId, ArmedBy es scopeType scopeId → c.Belongs scopeType scopeId →
    ¬ c.Executed switch readable

/-- The scopes of the call that its path does not ask for are not armed. -/
def Asked (es : List SwitchEvent) : PathCall → Prop
  | .governed _ call => ∀ agentId, call.actorId = some agentId → ArmedBy es .agent agentId →
    ArmedBy es .tool call.toolId ∨ ArmedBy es .tenant call.tenant
  | .agentTask _ name _ agentId tenantId =>
    ¬ ArmedBy es .tool name ∧ ¬ ArmedBy es .tenant tenantId ∧
    ∀ id, agentId = some id → ¬ ArmedBy es .agent id

end PathCall

/-! ## When a call is executed -/

variable {switch : KillSwitch} {readable : Bool} {es : List SwitchEvent}

theorem killswitchBlockReason_eq_none {toolId tenant : Str} :
    killswitchBlockReason (.opened switch readable) toolId tenant = none ↔
      switch.isArmed readable = false ∧ switch.scopeArmed readable .tool toolId = false ∧
      switch.scopeArmed readable .tenant tenant = false := by
  unfold killswitchBlockReason KillSwitch.isBlocked
  by_cases harmed : switch.isArmed readable = true
  · simp [harmed]
  · by_cases htool : switch.scopeArmed readable .tool toolId = true
    · simp [harmed, htool]
    · simp [harmed, htool]

/-- **When `_run_governed` calls the executor.** -/
theorem runGoverned_executes_iff {executors : Str → Bool}
    {execute : GovernedCall → Except PyError Str} {call : GovernedCall} :
    (runGoverned executors execute (.opened switch readable) call).2 = true ↔
      (∃ td, findTool call.toolId = some td ∧
        ¬ (td.approvalRequired = true ∧ call.toolId ∉ call.approved) ∧
        (∀ c ∈ td.requiredCapabilities, c ∈ call.granted) ∧ executors call.toolId = true) ∧
      switch.isArmed readable = false ∧ switch.scopeArmed readable .tool call.toolId = false ∧
      switch.scopeArmed readable .tenant call.tenant = false := by
  rw [← killswitchBlockReason_eq_none]
  unfold runGoverned governedRefusal
  cases htool : findTool call.toolId with
  | none => simp
  | some td =>
    cases hreason : killswitchBlockReason (.opened switch readable) call.toolId call.tenant with
    | some reason => simp
    | none =>
      simp only [Option.some.injEq, exists_eq_left', and_true]
      by_cases happroved : (td.approvalRequired && !call.approved.contains call.toolId) = true
      · have h : td.approvalRequired = true ∧ call.toolId ∉ call.approved := by
          simpa using happroved
        simp [h]
      · have h : ¬ (td.approvalRequired = true ∧ call.toolId ∉ call.approved) := by
          simpa using happroved
        rw [if_neg happroved]
        have hmissing : (td.requiredCapabilities.filter fun c => !call.granted.contains c) = [] ↔
            ∀ c ∈ td.requiredCapabilities, c ∈ call.granted := by
          simp [List.filter_eq_nil_iff]
        cases hfilter : td.requiredCapabilities.filter fun c => !call.granted.contains c with
        | nil =>
          have hall := hmissing.mp hfilter
          by_cases hexec : executors call.toolId = true
          · simpa [hexec, h] using hall
          · simp [hexec]
        | cons c missing =>
          have hnot : ¬ ∀ c ∈ td.requiredCapabilities, c ∈ call.granted := by
            rw [← hmissing, hfilter]
            simp
          simp [hnot]

/-! ## When lockdown holds -/

variable {repr : Str → Str}

theorem scopeArmed_of_run (h : run (switchStep repr) .init es = some switch) {scopeType : ScopeType}
    {scopeId : Str} :
    switch.scopeArmed true scopeType scopeId = true ↔ ArmedBy es scopeType scopeId := by
  rw [scopeArmed_iff, hasScope_iff h]

theorem executed_governed_iff (h : run (switchStep repr) .init es = some switch)
    {executors : Str → Bool} {call : GovernedCall} : (PathCall.governed executors call).Executed
    switch readable ↔ ¬ (PathCall.governed executors call).Stopped es switch readable ∧
      ¬ ArmedBy es .tool call.toolId ∧ ¬ ArmedBy es .tenant call.tenant := by
  rw [PathCall.Executed, runGoverned_executes_iff]
  unfold PathCall.Stopped
  rw [← scopeArmed_of_run h, ← scopeArmed_of_run h]
  cases hread : readable with
  | false => simp [KillSwitch.isArmed]
  | true =>
    simp only [not_or, Bool.not_eq_true]
    have htool : (∃ td, findTool call.toolId = some td ∧
        ¬ (td.approvalRequired = true ∧ call.toolId ∉ call.approved) ∧
        (∀ c ∈ td.requiredCapabilities, c ∈ call.granted) ∧ executors call.toolId = true) ↔
        ¬ ∀ td, findTool call.toolId = some td →
          (td.approvalRequired = true ∧ call.toolId ∉ call.approved) ∨
          (∃ c ∈ td.requiredCapabilities, c ∉ call.granted) ∨ executors call.toolId = false := by
      push Not
      simp
    rw [htool]
    tauto

theorem executed_agentTask_iff (h : run (switchStep repr) .init es = some switch)
    {self : SafeProvider} {name : Str} {task : Task} {agentId : Option Str} {tenantId : Str} :
    (PathCall.agentTask self name task agentId tenantId).Executed switch readable ↔
      ¬ (PathCall.agentTask self name task agentId tenantId).Stopped es switch readable := by
  rw [PathCall.Executed, SafeProvider.attempt_delegated_iff]
  simp only [PathCall.Stopped, SwitchClear, ← scopeArmed_of_run h, Option.some.injEq, forall_eq',
    SafeProvider.gateCall, reduceCtorEq, false_imp_iff, implies_true, and_true, not_or, not_not]
  cases hread : readable with
  | false => simp [KillSwitch.isArmed]
  | true => simp [and_assoc]

/-- **When lockdown holds for a call**, in every state of the switch: its path asks for the armed
scopes that it belongs to, or something else stops it. -/
theorem scopes_hold_iff {es : List SwitchEvent} {switch : KillSwitch}
    (h : run (switchStep repr) .init es = some switch) (readable : Bool) (c : PathCall) :
    c.Locked es switch readable ↔ c.Asked es ∨ c.Stopped es switch readable := by
  unfold PathCall.Locked
  cases c with
  | governed executors call =>
    simp only [executed_governed_iff h]
    unfold PathCall.Asked
    constructor
    · intro hlocked
      by_contra hnot
      obtain ⟨hasked, hstopped⟩ := not_or.mp hnot
      push Not at hasked
      obtain ⟨agentId, hagent, harmed, htool, htenant⟩ := hasked
      exact hlocked .agent agentId harmed hagent ⟨hstopped, htool, htenant⟩
    · rintro (hasked | hstopped) scopeType scopeId harmed hbelongs ⟨hfree, htool, htenant⟩
      · cases scopeType with
        | tool =>
          obtain rfl : call.toolId = scopeId := hbelongs
          exact htool harmed
        | tenant =>
          obtain rfl : call.tenant = scopeId := hbelongs
          exact htenant harmed
        | agent => exact (hasked scopeId hbelongs harmed).elim htool htenant
        | task | capability | resource => exact hbelongs
      · exact hfree hstopped
  | agentTask self name task agentId tenantId =>
    simp only [executed_agentTask_iff h, not_not]
    unfold PathCall.Asked
    constructor
    · intro hlocked
      by_contra hnot
      obtain ⟨hasked, hstopped⟩ := not_or.mp hnot
      refine hasked ⟨fun harmed => hstopped (hlocked .tool name harmed rfl),
        fun harmed => hstopped (hlocked .tenant tenantId harmed rfl), fun id hid harmed => ?_⟩
      exact hstopped (hlocked .agent id harmed hid)
    · rintro (⟨htool, htenant, hagent⟩ | hstopped) scopeType scopeId harmed hbelongs
      · cases scopeType with
        | tool =>
          obtain rfl : name = scopeId := hbelongs
          exact absurd harmed htool
        | tenant =>
          obtain rfl : tenantId = scopeId := hbelongs
          exact absurd harmed htenant
        | agent => exact absurd harmed (hagent scopeId hbelongs)
        | task | capability | resource => exact hbelongs.elim
      · exact hstopped

/-! ### Two calls -/

def lockOrder : KillSwitch.Order :=
  ⟨lit "operator", lit "incident", lit "2026-07-29T12:00:00+00:00"⟩

/-- A call of `search_vault` for a tenant. -/
def searchCall (tenant : Str) : PathCall :=
  .governed (fun _ => true) ⟨lit "search_vault", [], [], [], tenant, lit "default", none⟩

/-- The tenant is locked, and its call is stopped. -/
theorem scopes_hold_tenant : ∃ switch, run (switchStep id) .init
    [.armScope (lit "tenant") (lit "acme") lockOrder] = some switch ∧
    ((searchCall (lit "acme")).Locked [.armScope (lit "tenant") (lit "acme") lockOrder]
      switch true ↔
      (searchCall (lit "acme")).Asked [.armScope (lit "tenant") (lit "acme") lockOrder] ∨
      (searchCall (lit "acme")).Stopped [.armScope (lit "tenant") (lit "acme") lockOrder]
          switch true) :=
  ⟨_, rfl, scopes_hold_iff rfl true _⟩

/-- A task that reads from the vault. -/
def readTask : Task :=
  ⟨lit "research", lit "read the vault", none, [], [lit "read_vault"], [lit "vault_read"], [],
    lit "none", lit "retry:2"⟩

/-- The tool `vault_read` is locked, and its call reaches the provider: the gate asks for
`read_vault`. -/
theorem not_locked : ¬ ∀ (es : List SwitchEvent) (switch : KillSwitch) (readable : Bool)
    (c : PathCall), run (switchStep id) .init es = some switch → c.Locked es switch readable := by
  intro hall
  have hlocked := hall [.armScope (lit "tool") (lit "vault_read") lockOrder] _ true
    (.agentTask ⟨[], none, []⟩ (lit "vault_read") readTask none (lit "acme")) rfl .tool
    (lit "vault_read") rfl rfl
  refine hlocked ?_
  show (decideGate _ _).action = .safe
  decide +kernel

end Agent
