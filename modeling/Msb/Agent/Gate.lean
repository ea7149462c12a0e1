import Msb.Governance.KillSwitch
import Msb.Infra.PyValue

/-!
# The action gate

`agent/safety.py`: `ActionGate` decides on a capability, `SafeProvider` asks it before it passes a
tool call on. The capability of a tool that `TOOL_CAPABILITY` does not list is the first one that
the task declares.

* `decideGate_safe_iff` — when the gate decides `SAFE`
* `attempt_delegated_iff` — when a call is passed on
-/

namespace Agent

open Py Governance

/-! ## Capabilities -/

/-- `RISK_TIERS` -/
def riskTiers : List (Str × Int) :=
  [(lit "read_vault", 1), (lit "llm_synthesis", 1), (lit "web_search", 1), (lit "write_file", 2),
    (lit "vault_delete", 3), (lit "send_message", 3), (lit "financial", 4), (lit "permissions", 4)]

/-- `TOOL_CAPABILITY` -/
def toolCapabilities : List (Str × Str) :=
  [(lit "search_query", lit "read_vault"), (lit "vault_read", lit "read_vault"),
    (lit "chat", lit "llm_synthesis"), (lit "vault_write", lit "write_file")]

/-- `d.get(key)` -/
def lookupStr {α : Type} (d : List (Str × α)) (key : Str) : Option α :=
  (d.find? fun p => p.1 = key).map Prod.snd

/-- The capability of a tool that the map lists. -/
def toolCapability (name : Str) : Option Str := lookupStr toolCapabilities name

/-- `_UNKNOWN_TIER` -/
def unknownTier : Int := -1

/-- `_TAINTED_TOOLS` -/
def taintedTools : List Str := [lit "search_query", lit "vault_read"]

/-- `_TAINT_ESCALATED` -/
def taintEscalated : List Str :=
  [lit "write_file", lit "vault_delete", lit "send_message", lit "financial", lit "permissions"]

/-- `REVIEW_TIER` -/
def reviewTier : Int := 3

/-- `BLOCK_TIER` -/
def blockTier : Int := 4

/-- `is_registered` -/
def isRegistered (capability : Str) : Bool := (lookupStr riskTiers capability).isSome

/-- `tier_of` -/
def tierOf (capability : Str) : Int := (lookupStr riskTiers capability).getD unknownTier

/-! ## The gate -/

inductive GateAction where
  | safe
  | review
  | block
  deriving DecidableEq

structure GateVerdict where
  allowed : Bool
  action : GateAction
  reason : Str
  tier : Int
  tainted : Bool
  deriving DecidableEq

/-- The switch that the gate was built with, and whether it can be read now. -/
structure GateSwitch where
  switch : KillSwitch
  readable : Bool

/-- The arguments of `gate`. -/
structure GateCall where
  capability : Str
  taintedInputs : Bool
  approved : List Str
  granted : Option (List Str)
  agentId : Option Str
  tenantId : Option Str

/-- `_refuse`. A failing audit is only logged. -/
def refuse (action : GateAction) (reason : Str) (tier : Int) (tainted : Bool) : GateVerdict :=
  ⟨false, action, reason, tier, tainted⟩

/-- `_unknown_disposition` -/
def unknownDisposition (capability : Str) (taintedInputs : Bool) : GateVerdict :=
  if taintedInputs then
    refuse .review (lit "unknown capability driven by untrusted content requires approval")
      unknownTier true
  else refuse .block (lit "capability not registered: " ++ capability) unknownTier false

/-- Why the switch refuses a call, where it does. -/
def switchReason (switch : GateSwitch) (call : GateCall) : Option Str :=
  let blocked (scopeType : ScopeType) (scopeId : Str) : Bool :=
    switch.switch.isBlocked switch.readable scopeType scopeId
  if switch.switch.isArmed switch.readable then some (lit "kill switch armed — loop paused")
  else if blocked .tool call.capability then
    some (lit "kill switch armed for tool scope: " ++ call.capability)
  else
    match call.agentId.filter (blocked .agent) with
    | some agentId => some (lit "kill switch armed for agent scope: " ++ agentId)
    | none =>
      (call.tenantId.filter (blocked .tenant)).map fun tenantId =>
        lit "kill switch armed for tenant scope: " ++ tenantId

/-- `_decide`. A gate without a switch is not armed. -/
def decideGate (switch : Option GateSwitch) (call : GateCall) : GateVerdict :=
  let tier := tierOf call.capability
  if tier = unknownTier then unknownDisposition call.capability call.taintedInputs
  else
    match switch.bind fun s => switchReason s call with
    | some reason => refuse .block reason tier call.taintedInputs
    | none =>
      if (call.granted.map fun granted => !granted.contains call.capability).getD false then
        refuse .block (lit "capability not granted to this agent: " ++ call.capability) tier
          call.taintedInputs
      else if call.taintedInputs && taintEscalated.contains call.capability &&
          !call.approved.contains call.capability then
        refuse .review (lit "action driven by untrusted content requires approval") tier
          call.taintedInputs
      else if blockTier ≤ tier then
        refuse .block (lit "action at very-high risk tier") tier call.taintedInputs
      else if reviewTier ≤ tier then
        refuse .review (lit "action at high risk tier") tier call.taintedInputs
      else ⟨true, .safe, lit "registered capability, brakes clear", tier, call.taintedInputs⟩

/-! ## Tasks and the provider -/

/-- An entry of `inputs`: the task it comes from, where it names one. -/
structure TaskInput where
  source : Option Str
  kind : Str
  deriving DecidableEq

structure Task where
  taskId : Str
  goal : Str
  parentId : Option Str
  inputs : List TaskInput
  requiredCapabilities : List Str
  tools : List Str
  expectedOutput : Str
  verificationMethod : Str
  retryPolicy : Str
  deriving DecidableEq

/-- The tasks that a task declares as its inputs. -/
def Task.sources (task : Task) : List Str := task.inputs.filterMap TaskInput.source

/-- The capability that a call of a tool is gated under. -/
def Task.capabilityOf (task : Task) (name : Str) : Str :=
  (toolCapability name).getD (task.requiredCapabilities.headD (lit "read_vault"))

/-- A `SafeProvider`, with the tasks whose outputs carry untrusted content. -/
structure SafeProvider where
  approved : List Str
  granted : Option (List Str)
  tainted : List Str

/-- What happens around one tool call: the state of the switch, and what the wrapped provider does.
-/
structure CallEnv where
  switch : Option GateSwitch
  outcome : Except PyError PyVal

/-- One call of `run_tool`, with the verdict that it got. -/
structure Attempt where
  taskId : Str
  name : Str
  capability : Str
  verdict : GateVerdict

/-- The call reached the wrapped provider. -/
def Attempt.Delegated (a : Attempt) : Prop := a.verdict.action = .safe

instance (a : Attempt) : Decidable a.Delegated := inferInstanceAs (Decidable (_ = _))

def gateBlocked (verdict : GateVerdict) : PyError :=
  .raised (lit "GateBlocked") (lit "action blocked: " ++ verdict.reason)

def gateReview (verdict : GateVerdict) : PyError :=
  .raised (lit "GateReview") (lit "action review required: " ++ verdict.reason)

namespace SafeProvider

/-- Whether a task declares an input from a tainted task. The empty id is no task. -/
def taintedInputs (self : SafeProvider) (task : Task) : Bool :=
  task.sources.any fun source => source ≠ [] && self.tainted.contains source

/-- What `run_tool` asks the gate. It names neither the agent nor the tenant. -/
def gateCall (self : SafeProvider) (name : Str) (task : Task) : GateCall where
  capability := task.capabilityOf name
  taintedInputs := self.taintedInputs task
  approved := self.approved
  granted := self.granted
  agentId := none
  tenantId := none

/-- The call as it is recorded. -/
def attempt (self : SafeProvider) (env : CallEnv) (name : Str) (task : Task) : Attempt :=
  ⟨task.taskId, name, task.capabilityOf name, decideGate env.switch (self.gateCall name task)⟩

/-- The provider after a call that went through. -/
def taint (self : SafeProvider) (name : Str) (task : Task) : SafeProvider :=
  if self.taintedInputs task || taintedTools.contains name then
    { self with tainted := if self.tainted.contains task.taskId then self.tainted
        else self.tainted ++ [task.taskId] }
  else self

/-- `run_tool` -/
def runTool (self : SafeProvider) (env : CallEnv) (name : Str) (task : Task) :
    Except PyError PyVal × SafeProvider :=
  let verdict := (self.attempt env name task).verdict
  match verdict.action with
  | .block => (.error (gateBlocked verdict), self)
  | .review => (.error (gateReview verdict), self)
  | .safe =>
    match env.outcome with
    | .error e => (.error e, self)
    | .ok result => (.ok result, self.taint name task)

end SafeProvider

/-! ## When the gate decides `SAFE` -/

/-- The switch lets a call through. -/
def SwitchClear (switch : Option GateSwitch) (call : GateCall) : Prop :=
  ∀ s, switch = some s → s.switch.isArmed s.readable = false ∧
    s.switch.scopeArmed s.readable .tool call.capability = false ∧
    (∀ agentId, call.agentId = some agentId →
      s.switch.scopeArmed s.readable .agent agentId = false) ∧
    ∀ tenantId, call.tenantId = some tenantId →
      s.switch.scopeArmed s.readable .tenant tenantId = false

/-- What the gate asks besides the switch: a registered capability of a low tier, granted, and
approved where tainted content drives it. -/
structure Admissible (call : GateCall) : Prop where
  registered : isRegistered call.capability = true
  low : tierOf call.capability < reviewTier
  granted : ∀ granted, call.granted = some granted → call.capability ∈ granted
  untainted : call.taintedInputs = true → call.capability ∈ taintEscalated →
    call.capability ∈ call.approved

theorem switchReason_eq_none {s : GateSwitch} {call : GateCall} :
    switchReason s call = none ↔ s.switch.isArmed s.readable = false ∧
      s.switch.scopeArmed s.readable .tool call.capability = false ∧
      (∀ agentId, call.agentId = some agentId →
        s.switch.scopeArmed s.readable .agent agentId = false) ∧
      ∀ tenantId, call.tenantId = some tenantId →
        s.switch.scopeArmed s.readable .tenant tenantId = false := by
  unfold switchReason KillSwitch.isBlocked
  by_cases harmed : s.switch.isArmed s.readable = true
  · simp [harmed]
  · by_cases htool : s.switch.scopeArmed s.readable .tool call.capability = true
    · simp [harmed, htool]
    · simp only [Bool.not_eq_true] at harmed htool
      cases hagent : call.agentId with
      | none =>
        cases htenant : call.tenantId with
        | none => simp [harmed, htool]
        | some tenantId => simp [harmed, htool, Option.filter_some]
      | some agentId =>
        cases ha : s.switch.scopeArmed s.readable .agent agentId with
        | true => simp [harmed, htool, ha, Option.filter_some]
        | false =>
          cases htenant : call.tenantId with
          | none => simp [harmed, htool, ha, Option.filter_some]
          | some tenantId => simp [harmed, htool, ha, Option.filter_some]

theorem tierOf_eq_unknown {capability : Str} :
    tierOf capability = unknownTier ↔ isRegistered capability = false := by
  unfold tierOf isRegistered lookupStr
  cases hfind : riskTiers.find? fun p => p.1 = capability with
  | none => simp
  | some p =>
    have hmem := List.mem_of_find?_eq_some hfind
    have hall : ∀ q ∈ riskTiers, q.2 ≠ unknownTier := by decide
    simpa using hall p hmem

/-- **When the gate decides `SAFE`**: the switch is clear and the call is admissible. -/
theorem decideGate_safe_iff {switch : Option GateSwitch} {call : GateCall} :
    (decideGate switch call).action = .safe ↔ SwitchClear switch call ∧ Admissible call := by
  have hclear : SwitchClear switch call ↔ (switch.bind fun s => switchReason s call) = none := by
    cases switch with
    | none => simp [SwitchClear]
    | some s => simp [SwitchClear, switchReason_eq_none]
  have hadmissible : Admissible call ↔ isRegistered call.capability = true ∧
      tierOf call.capability < reviewTier ∧
      (∀ granted, call.granted = some granted → call.capability ∈ granted) ∧
      (call.taintedInputs = true → call.capability ∈ taintEscalated →
        call.capability ∈ call.approved) :=
    ⟨fun h => ⟨h.registered, h.low, h.granted, h.untainted⟩, fun ⟨h, h', h'', h'''⟩ =>
      ⟨h, h', h'', h'''⟩⟩
  rw [hclear, hadmissible]
  unfold decideGate
  by_cases hknown : tierOf call.capability = unknownTier
  · have hreg := tierOf_eq_unknown.mp hknown
    simp only [hknown, if_true, hreg, Bool.false_eq_true, false_and, and_false, iff_false]
    unfold unknownDisposition
    split <;> simp [refuse]
  · have hreg : isRegistered call.capability = true := by
      simpa [tierOf_eq_unknown] using hknown
    simp only [hknown, if_false, hreg, true_and]
    cases hreason : switch.bind fun s => switchReason s call with
    | some reason => simp [refuse]
    | none =>
      simp only [true_and]
      have hgranted : (call.granted.map fun granted => !granted.contains call.capability).getD
        false = true ↔ ¬ ∀ granted, call.granted = some granted → call.capability ∈ granted := by
        cases call.granted <;> simp
      have htaint : (call.taintedInputs && taintEscalated.contains call.capability &&
          !call.approved.contains call.capability) = true ↔ ¬ (call.taintedInputs = true →
            call.capability ∈ taintEscalated → call.capability ∈ call.approved) := by
        simp [and_assoc]
      rw [if_congr hgranted rfl rfl, if_congr htaint rfl rfl]
      by_cases hg : ∀ granted, call.granted = some granted → call.capability ∈ granted
      · rw [if_neg (not_not.mpr hg)]
        by_cases ht : call.taintedInputs = true → call.capability ∈ taintEscalated →
            call.capability ∈ call.approved
        · rw [if_neg (not_not.mpr ht)]
          by_cases hhigh : tierOf call.capability < reviewTier
          · have hblock : ¬ blockTier ≤ tierOf call.capability := by
              unfold blockTier reviewTier at *
              omega
            simp only [hblock, if_false, not_le.mpr hhigh, true_iff]
            exact ⟨hhigh, hg, ht⟩
          · have hreview : reviewTier ≤ tierOf call.capability := not_lt.mp hhigh
            simp only [hreview, if_true, hhigh, false_and, iff_false]
            split <;> simp [refuse]
        · simp [ht, refuse]
      · simp [hg, refuse]

namespace SafeProvider

variable {self : SafeProvider} {env : CallEnv} {name : Str} {task : Task}

/-- **When a call is passed on.** -/
theorem attempt_delegated_iff : (self.attempt env name task).Delegated ↔
    SwitchClear env.switch (self.gateCall name task) ∧ Admissible (self.gateCall name task) :=
  decideGate_safe_iff

/-- A call that succeeds was passed on, and the wrapped provider succeeded. -/
theorem runTool_eq_ok {result : PyVal} {after : SafeProvider}
    (h : self.runTool env name task = (.ok result, after)) :
    (self.attempt env name task).Delegated ∧ env.outcome = .ok result ∧
        after = self.taint name task := by
  unfold runTool at h
  cases haction : (self.attempt env name task).verdict.action with
  | block =>
    simp only [haction] at h
    cases h
  | review =>
    simp only [haction] at h
    cases h
  | safe =>
    cases houtcome : env.outcome with
    | error e =>
      simp only [haction, houtcome] at h
      cases h
    | ok value =>
      simp only [haction, houtcome, Prod.mk.injEq, Except.ok.injEq] at h
      exact ⟨haction, congrArg Except.ok h.1, h.2.symm⟩

/-- A call that fails changes nothing. -/
theorem runTool_error {e : PyError} {after : SafeProvider}
    (h : self.runTool env name task = (.error e, after)) : after = self := by
  unfold runTool at h
  cases haction : (self.attempt env name task).verdict.action with
  | block =>
    simp only [haction] at h
    exact (Prod.mk.inj h).2.symm
  | review =>
    simp only [haction] at h
    exact (Prod.mk.inj h).2.symm
  | safe =>
    cases houtcome : env.outcome with
    | error e' =>
      simp only [haction, houtcome] at h
      exact (Prod.mk.inj h).2.symm
    | ok value =>
      simp only [haction, houtcome] at h
      cases h

end SafeProvider

end Agent
