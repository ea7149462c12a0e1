import Msb.Agent.Gate
import Msb.Infra.Number
import Msb.Infra.PyValue

/-!
# The harness bridge

`plei/harness/bridge.py`: the steps of a work plan are gated, executed, verified and recorded, one
after the other. What the gate, the providers, MoIE and the evidence spine answer around one step is
an environment, one for each position of the plan.

* `executePlan` — the report, and what was asked and run on the way
-/

namespace Plei

open Py

/-! ## The plan and the services -/

structure WorkPlanStep where
  stepId : Str
  sequence : Int
  goal : Str
  riskTier : Int
  capabilitiesRequired : List Str
  taintedInputs : Bool
  preferredProviderId : Str
  fallbackProviderIds : List Str
  verificationClaims : List Str

structure WorkPlan where
  planId : Str
  steps : List WorkPlanStep

/-- `agent.safety.GateVerdict`. The action is `SAFE`, `REVIEW`, `BLOCK` or `UNKNOWN`. -/
structure GateVerdict where
  allowed : Bool
  action : Str
  reason : Str
  tier : Int
  tainted : Bool
  detail : List (PyKey × PyVal)

/-- The arguments of `gate.gate`. -/
structure GateAsk where
  capability : Str
  taintedInputs : Bool
  approved : Option (List Str)

/-- The verdict of a `MoIEDecision`. -/
inductive MoIEVerdict where
  | approve
  | conditional
  | block
  deriving DecidableEq

def MoIEVerdict.text : MoIEVerdict → Str
  | .approve => lit "APPROVE"
  | .conditional => lit "CONDITIONAL"
  | .block => lit "BLOCK"

structure ProviderResult where
  ok : Bool
  output : Str
  artifacts : List (PyKey × PyVal)
  error : Option Str

/-- The fields of a `DecisionEvidence` that the bridge sets. -/
structure StepEvidence where
  taskId : Str
  policyVersion : Str
  policyResult : Str
  riskLevel : Str
  executionId : Str
  provider : Str

/-- What is answered around one step: by the gate, by the provider that is tried as the `k`-th (why
it is unavailable, and its result), by MoIE to the `k`-th claim, by the spine. A record has an id.
-/
structure StepEnv where
  gate : GateAsk → Except PyError GateVerdict
  unavailable : Nat → Option Str
  execute : Nat → Except PyError ProviderResult
  analyze : Nat → Except PyError MoIEVerdict
  append : StepEvidence → Except PyError Str

/-- What `execute_plan` is given. -/
structure Wiring where
  providersById : List Str
  gate : Bool
  moie : Bool
  evidenceSpine : Bool
  approvedCapabilities : Option (List Str)

/-- `repr(v)` and `str(exc)` -/
structure Texts where
  repr : PyVal → Str
  message : PyError → Str

variable (T : Texts)

/-- `str(verdict)` of a dataclass -/
def GateVerdict.str (v : GateVerdict) : Str :=
  lit "GateVerdict(allowed=" ++ T.repr (.bool v.allowed) ++ lit ", action=" ++
    T.repr (.str v.action) ++ lit ", reason=" ++
    T.repr (.str v.reason) ++ lit ", tier=" ++ T.repr (.int v.tier) ++ lit ", tainted=" ++
    T.repr (.bool v.tainted) ++
    lit ", detail=" ++ T.repr (.dict v.detail) ++ lit ")"

/-! ## One step -/

structure StepResult where
  stepId : Str
  sequence : Int
  goal : Str
  providerId : Str
  ok : Bool
  output : Str
  error : Str
  gateVerdict : Str
  gateReason : Str
  claimsVerified : Nat
  claimsTotal : Nat
  verified : Bool
  artifacts : List (PyKey × PyVal)
  fallbackTried : List Str
  fallbackSucceeded : Bool

/-- What happened at one step: the answers of the gate, the providers that were run, the answers of
MoIE, the records. -/
structure StepTrace where
  step : WorkPlanStep
  asked : List (Str × Except PyError GateVerdict)
  ran : List Str
  analyzed : List (Except PyError MoIEVerdict)
  records : List Str

/-- The one capability that the gate is asked about. -/
def WorkPlanStep.capability (step : WorkPlanStep) : Str :=
  step.capabilitiesRequired.headD (lit "read_vault")

def WorkPlanStep.ask (w : Wiring) (step : WorkPlanStep) : GateAsk :=
  ⟨step.capability, step.taintedInputs, w.approvedCapabilities⟩

/-- `_gate_step`. A verdict has no attribute `verdict`, so its text is taken. -/
def gateStep (w : Wiring) (step : WorkPlanStep) (env : StepEnv) : Str × Str :=
  if w.gate = false then (lit "SAFE", lit "no ActionGate available — running ungated")
  else
    match env.gate (step.ask w) with
    | .ok verdict => (verdict.str T, verdict.reason)
    | .error e => (lit "BLOCK", lit "gate exception: " ++ T.message e)

/-- What the gate has answered. -/
def askedAt (w : Wiring) (step : WorkPlanStep) (env : StepEnv) :
    List (Str × Except PyError GateVerdict) :=
  if w.gate = false then [] else [(step.capability, env.gate (step.ask w))]

/-- What an attempt gives: `(ok, output, artifacts, error)`. -/
structure Outcome where
  ok : Bool
  output : Str
  artifacts : List (PyKey × PyVal)
  error : Str

def Outcome.failed (error : Str) : Outcome := ⟨false, [], [], error⟩

/-- The `k`-th provider is registered and available. -/
def Runs (w : Wiring) (env : StepEnv) (k : Nat) (providerId : Str) : Prop :=
  providerId ∈ w.providersById ∧ env.unavailable k = none

instance (w : Wiring) (env : StepEnv) (k : Nat) (providerId : Str) :
    Decidable (Runs w env k providerId) :=
  inferInstanceAs (Decidable (_ ∧ _))

/-- `_execute_with_provider` -/
def executeWithProvider (w : Wiring) (env : StepEnv) (k : Nat) (providerId : Str) : Outcome :=
  if providerId ∉ w.providersById then .failed
    (lit "provider '" ++ providerId ++ lit "' not found in registry")
  else
    match env.unavailable k with
    | some reason => .failed (lit "provider '" ++ providerId ++ lit "' is unavailable: " ++ reason)
    | none =>
      match env.execute k with
      | .ok result => ⟨result.ok, result.output, result.artifacts, result.error.getD []⟩
      | .error e => .failed (T.message e)

/-- The providers of a step, the empty ids left out. -/
def WorkPlanStep.providerIds (step : WorkPlanStep) : List Str :=
  (step.preferredProviderId :: step.fallbackProviderIds).filter fun p => p ≠ []

/-- What the chain of providers gives: the last outcome, the ids tried, the one that succeeded,
those that were run. -/
structure Attempts where
  outcome : Outcome
  tried : List Str
  used : Str
  ran : List Str

/-- The loop over the provider ids, from the `k`-th on. -/
def tryProviders (w : Wiring) (env : StepEnv) (last : Outcome) : Nat → List Str → Attempts
  | _, [] => ⟨last, [], [], []⟩
  | k, providerId :: rest =>
    let outcome := executeWithProvider T w env k providerId
    let ran := if Runs w env k providerId then [providerId] else []
    if outcome.ok = true then ⟨outcome, [providerId], providerId, ran⟩
    else
      let more := tryProviders w env outcome (k + 1) rest
      ⟨more.outcome, providerId :: more.tried, more.used, ran ++ more.ran⟩

/-- The fallback chain. -/
def runProviders (w : Wiring) (step : WorkPlanStep) (env : StepEnv) : Attempts :=
  if w.providersById = [] then
    ⟨.failed (lit "no providers available (providers_by_id is None)"), step.providerIds, [], []⟩
  else tryProviders T w env (.failed []) 0 step.providerIds

/-- `getattr(decision, "verdict", "") in ("OK", "PASS")` -/
def passes : Except PyError MoIEVerdict → Bool
  | .ok verdict => [lit "OK", lit "PASS"].contains verdict.text
  | .error _ => false

/-- What MoIE answers to the claims of a step. -/
def analyzedAt (w : Wiring) (step : WorkPlanStep) (env : StepEnv) :
    List (Except PyError MoIEVerdict) :=
  if w.moie = false then [] else (List.range step.verificationClaims.length).map env.analyze

/-- `_verify_claims` -/
def verifyClaims (w : Wiring) (step : WorkPlanStep) (env : StepEnv) : Nat × Nat × Bool :=
  let total := step.verificationClaims.length
  if total = 0 then (0, 0, true)
  else if w.moie = false then (0, total, false)
  else
    let verified := (analyzedAt w step env).countP passes
    (verified, total, verified = total)

/-- The id of the provider in the result and in the evidence. -/
def providerOf (step : WorkPlanStep) (attempts : Attempts) : Str :=
  if attempts.used ≠ [] then attempts.used else step.preferredProviderId

def evidenceOf (step : WorkPlanStep) (attempts : Attempts) : StepEvidence :=
  ⟨step.stepId, lit "plei.harness", if attempts.outcome.ok = true then lit "PASS" else lit "FAIL",
    (intLit step.riskTier).text, step.stepId, providerOf step attempts⟩

/-- The records of a step. A failing append is logged. -/
def recordsAt (w : Wiring) (step : WorkPlanStep) (env : StepEnv) : List Str :=
  if w.evidenceSpine = false then []
  else
    match env.append (evidenceOf step (runProviders T w step env)) with
    | .ok decisionId => [decisionId]
    | .error _ => []

/-- The result of a step that the gate does not halt. -/
def resultOf (w : Wiring) (step : WorkPlanStep) (env : StepEnv) : StepResult :=
  let gated := gateStep T w step env
  let attempts := runProviders T w step env
  let claims := verifyClaims w step env
  { stepId := step.stepId
    sequence := step.sequence
    goal := step.goal
    providerId := providerOf step attempts
    ok := attempts.outcome.ok
    output := attempts.outcome.output.take 500
    error := attempts.outcome.error
    gateVerdict := gated.1
    gateReason := gated.2
    claimsVerified := claims.1
    claimsTotal := claims.2.1
    verified := claims.2.2
    artifacts := attempts.outcome.artifacts
    fallbackTried := attempts.tried.filter fun p => p ≠ attempts.used
    fallbackSucceeded := attempts.outcome.ok && decide (1 < attempts.tried.length) }

/-- The result of a step that is blocked. -/
def blockedResult (step : WorkPlanStep) (reason : Str) : StepResult where
  stepId := step.stepId
  sequence := step.sequence
  goal := step.goal
  providerId := step.preferredProviderId
  ok := false
  output := []
  error := lit "BLOCKED: " ++ reason
  gateVerdict := lit "BLOCK"
  gateReason := reason
  claimsVerified := 0
  claimsTotal := 0
  verified := false
  artifacts := []
  fallbackTried := []
  fallbackSucceeded := false

/-! ## The plan -/

/-- The counters and lists of `execute_plan`, and what has happened so far. -/
structure Progress where
  stepResults : List StepResult
  blocked : Nat
  reviewSteps : Nat
  failed : Nat
  completed : Nat
  receipts : List Str
  reviewMsgs : List Str
  trace : List StepTrace

def Progress.start : Progress := ⟨[], 0, 0, 0, 0, [], [], []⟩

/-- What a blocked step adds. -/
def Progress.halt (acc : Progress) (w : Wiring) (step : WorkPlanStep) (env : StepEnv) (reason : Str)
    : Progress :=
  { acc with
    blocked := acc.blocked + 1
    stepResults := acc.stepResults ++ [blockedResult step reason]
    trace := acc.trace ++ [⟨step, askedAt w step env, [], [], []⟩] }

/-- What a step that is executed adds. -/
def Progress.execute (acc : Progress) (w : Wiring) (step : WorkPlanStep) (env : StepEnv) :
    Progress :=
  let gated := gateStep T w step env
  let attempts := runProviders T w step env
  let review := gated.1 = lit "REVIEW"
  { acc with
    reviewSteps := if review then acc.reviewSteps + 1 else acc.reviewSteps
    reviewMsgs :=
      if review then acc.reviewMsgs ++ [lit "[" ++ step.stepId ++ lit "] REVIEW: " ++ gated.2]
      else acc.reviewMsgs
    receipts := acc.receipts ++ recordsAt T w step env
    completed := if attempts.outcome.ok = true then acc.completed + 1 else acc.completed
    failed := if attempts.outcome.ok = true then acc.failed else acc.failed + 1
    stepResults := acc.stepResults ++ [resultOf T w step env]
    trace := acc.trace ++
      [⟨step, askedAt w step env, attempts.ran, analyzedAt w step env, recordsAt T w step env⟩] }

/-- The loop over the steps, from position `i` on. -/
def runSteps (w : Wiring) (env : Nat → StepEnv) (acc : Progress) : Nat →
    List WorkPlanStep → Progress
  | _, [] => acc
  | i, step :: rest =>
    let gated := gateStep T w step (env i)
    if gated.1 = lit "BLOCK" then acc.halt w step (env i) gated.2
    else runSteps w env (acc.execute T w step (env i)) (i + 1) rest

structure ExecutionReport where
  planId : Str
  ok : Bool
  totalSteps : Nat
  completedSteps : Nat
  failedSteps : Nat
  blockedSteps : Nat
  reviewSteps : Nat
  stepResults : List StepResult
  evidenceReceipts : List Str
  reviewSummary : Str

/-- `sorted(plan.steps, key=...)` -/
def WorkPlan.sorted (plan : WorkPlan) : List WorkPlanStep :=
  plan.steps.insertionSort fun a b => a.sequence ≤ b.sequence

/-- `execute_plan`, with what has happened at each of the steps considered. -/
def executePlan (w : Wiring) (env : Nat → StepEnv) (plan : WorkPlan) :
    ExecutionReport × List StepTrace :=
  let acc := runSteps T w env .start 0 plan.sorted
  ({ planId := plan.planId
     ok := decide (acc.blocked = 0 ∧ acc.failed = 0)
     totalSteps := plan.steps.length
     completedSteps := acc.completed
     failedSteps := acc.failed
     blockedSteps := acc.blocked
     reviewSteps := acc.reviewSteps
     stepResults := acc.stepResults
     evidenceReceipts := acc.receipts
     reviewSummary := (lit " | ").intercalate acc.reviewMsgs }, acc.trace)

/-! ## The action gate as the gate of a bridge -/

def gateActionText : Agent.GateAction → Str
  | .safe => lit "SAFE"
  | .review => lit "REVIEW"
  | .block => lit "BLOCK"

/-- What an `ActionGate` answers to the bridge. -/
def actionGate (switch : Option Agent.GateSwitch) (ask : GateAsk) : Except PyError GateVerdict :=
  let v := Agent.decideGate switch ⟨ask.capability, ask.taintedInputs, ask.approved.getD [], none,
    none, none⟩
  .ok ⟨v.allowed, gateActionText v.action, v.reason, v.tier, v.tainted, []⟩

end Plei
