import Msb.Infra.FloatArith
import Msb.Infra.Run

/-!
# The budget of the loop

`_run_loop` of `agent/execution_loop.py`. An action leaves what it has used under
`context["resources"]`, and the loop adds it to the totals at the end of the iteration. Two branches
continue before that: an iteration that fails, and one whose score asks for a patch. What the action
does to the status, what it returns and which artifacts it leaves is left open.

* `budget_sees_iff` — the runs in which the totals are what the actions have reported, and none runs
  over the cap
* `Watched.Sees.along_handsOff` — the same, for actions that leave the totals and the budget alone
* `failed_iteration_unseen` — an iteration that fails has used the whole budget, and the next one
  runs
-/

namespace RalphLoop

open Py Machine

/-! ## The status -/

/-- `ResourceUsage` -/
structure ResourceUsage where
  promptTokens : Int
  completionTokens : Int
  cpuSeconds : PyFloat
  gpuSeconds : PyFloat
  diskWrites : Int
  deriving DecidableEq

/-- `ResourceUsage()` -/
def ResourceUsage.default : ResourceUsage := ⟨0, 0, .zero false, .zero false, 0⟩

/-- `context["resources"]`, its values as `int` and `float` read them. `other` is a key that is not
read. -/
structure Report where
  promptTokens : Option Int
  completionTokens : Option Int
  cpuSeconds : Option PyFloat
  gpuSeconds : Option PyFloat
  diskWrites : Option Int
  other : Bool
  deriving DecidableEq

/-- The empty dict: `if res_data` is false. -/
def Report.IsEmpty (r : Report) : Prop := r = ⟨none, none, none, none, none, false⟩

instance : DecidablePred Report.IsEmpty := fun _ => inferInstanceAs (Decidable (_ = _))

/-- An entry of `annealing_log`. -/
structure Directive where
  error : Str
  diagnosis : Str
  fix : Str
  iteration : Int
  deriving DecidableEq

/-- What `evaluate` returns. -/
structure Evaluation where
  novelty : PyFloat
  correctness : PyFloat
  completeness : PyFloat
  evidence : PyFloat
  confidence : PyFloat
  risk : PyFloat
  score : PyFloat
  changed : Bool
  deriving DecidableEq

/-- An entry of `improvement_log`. -/
structure Improvement where
  iteration : Int
  score : PyFloat
  action : Str
  patch : Option Str
  note : Option Str
  deriving DecidableEq

/-- `Status`, with the entries of `result` that the loop writes. -/
structure Status where
  loopId : Str
  status : Str
  currentAction : Str
  nextAction : Str
  annealingLog : List Directive
  improvementLog : List Improvement
  lastEval : Option Evaluation
  lastOutput : Option Str
  artifactsHash : Str
  scopeHash : Str
  budgetSpentUsd : PyFloat
  budgetCapUsd : PyFloat
  maxLoops : Int
  stallThreshold : Int
  resources : ResourceUsage
  logs : List Str
  iterations : Int
  deriving DecidableEq

/-- `Status()` -/
def Status.default : Status where
  loopId := []
  status := lit "READY"
  currentAction := []
  nextAction := []
  annealingLog := []
  improvementLog := []
  lastEval := none
  lastOutput := none
  artifactsHash := []
  scopeHash := []
  budgetSpentUsd := .zero false
  budgetCapUsd := ofDecimal false 1 0
  maxLoops := 12
  stallThreshold := 3
  resources := .default
  logs := []
  iterations := 0

/-! ## Resource accounting -/

/-- The totals after `account_resources`. -/
def ResourceUsage.add (res : ResourceUsage) (r : Report) : ResourceUsage where
  promptTokens := res.promptTokens + r.promptTokens.getD 0
  completionTokens := res.completionTokens + r.completionTokens.getD 0
  cpuSeconds := res.cpuSeconds.add (r.cpuSeconds.getD (.zero false))
  gpuSeconds := res.gpuSeconds.add (r.gpuSeconds.getD (.zero false))
  diskWrites := res.diskWrites + r.diskWrites.getD 1

/-- `round((res.completion_tokens / 1000.0) * 0.001, 6)` -/
def ResourceUsage.estimatedCost (res : ResourceUsage) : PyFloat :=
  (((PyFloat.ofInt res.completionTokens).div (.ofInt 1000)).mul (ofDecimal false 1 (-3))).round 6

/-- `account_resources` -/
def Status.accountResources (status : Status) (r : Report) : Status :=
  { status with
    resources := status.resources.add r, budgetSpentUsd := (status.resources.add r).estimatedCost }

/-- What the loop does with `context.pop("resources", {})`. -/
def Status.account (status : Status) (resources : Option Report) : Status :=
  match resources with
  | none => status
  | some r => if r.IsEmpty then status else status.accountResources r

/-! ## Self-annealing -/

section
variable (lower : Str → Str)

/-- `_diagnose` -/
def diagnose (error : Str) : Str :=
  if lit "budget" <:+: lower error ∨ lit "cost" <:+: lower error then lit "budget_exhausted"
  else if lit "timeout" <:+: lower error ∨ lit "stall" <:+: lower error then lit "stall_detected"
  else if lit "scope" <:+: lower error ∨ lit "hash" <:+: lower error then lit "scope_mismatch"
  else lit "unknown_failure"

/-- `presets` -/
def presets : List (Str × Str) :=
  [(lit "budget_exhausted", lit "reduce_scope_or_abort"),
    (lit "stall_detected", lit "restart_from_checkpoint"),
    (lit "scope_mismatch", lit "evolve_scope_with_approval"),
    (lit "unknown_failure", lit "quarantine_and_escalate")]

/-- `_prescribe` -/
def prescribe (diagnosis : Str) : Str :=
  (presets.lookup diagnosis).getD (lit "escalate_to_operator")

/-- `_anneal` -/
def Status.anneal (status : Status) (error : Str) : Str × Status :=
  let diagnosis := diagnose lower error
  let fix := prescribe diagnosis
  (fix, { status with
    annealingLog := status.annealingLog ++ [⟨error, diagnosis, fix, status.iterations⟩]
    logs := status.logs ++ [lit "[anneal] " ++ diagnosis ++ lit " → " ++ fix] })

end

/-! ## Evaluation -/

section
variable (upper : Str → Str)

/-- `len(s.split())` -/
def wordCount (s : Str) : Nat := ((s.splitOnP isSpace).filter fun w => w ≠ []).length

/-- `evaluate` -/
def evaluate (result : Str) (artifactsWritten : Nat) (prevHash currHash : Str) : Evaluation :=
  let novelty := PyFloat.min (.ofInt 1) ((PyFloat.ofInt (wordCount result)).div (.ofInt 200))
  let correctness := if lit "[DONE]" <:+: upper result ∨ 0 < artifactsWritten then .ofInt 1
    else ofDecimal false 5 (-1)
  let completeness := if 2 ≤ artifactsWritten then ofDecimal false 9 (-1)
    else if artifactsWritten = 1 then ofDecimal false 5 (-1) else ofDecimal false 1 (-1)
  let evidence := if 0 < artifactsWritten then ofDecimal false 8 (-1) else .zero false
  let confidence := ofDecimal false 75 (-2)
  let risk := ofDecimal false 1 (-1)
  let sum := ((((novelty.add correctness).add completeness).add evidence).add confidence).add
    ((PyFloat.ofInt 1).sub risk)
  let score := (sum.div (.ofInt 6)).round 4
  { novelty := novelty.round 4
    correctness := correctness.round 4
    completeness := completeness.round 4
    evidence := evidence.round 4
    confidence := confidence.round 4
    risk := risk.round 4
    score := score.round 4
    changed := prevHash ≠ currHash }

/-- The values that are compared with `0.5`. `changed` is one of them: a `bool` is an `int`. -/
def Evaluation.items (e : Evaluation) : List (Str × PyFloat) :=
  [(lit "novelty", e.novelty), (lit "correctness", e.correctness),
    (lit "completeness", e.completeness),
    (lit "evidence", e.evidence), (lit "confidence", e.confidence), (lit "risk", e.risk),
    (lit "changed", .ofInt (if e.changed then 1 else 0))]

/-- `_propose_patch` -/
def proposePatch (e : Evaluation) : Str :=
  match (e.items.filter fun p => p.2.lt (ofDecimal false 5 (-1))).map Prod.fst with
  | [] => lit "increase_artifact_diversity"
  | weak => lit "strengthen_" ++ [95].intercalate weak

/-- `_maybe_improve` -/
def Status.maybeImprove (status : Status) (e : Evaluation) : Option Str × Status :=
  if (ofDecimal false 85 (-2)).le e.score then
    (none, { status with
      improvementLog := status.improvementLog ++ [⟨status.iterations, e.score, lit "accept", none,
        some (lit "candidate improvement — above 0.85 threshold")⟩] })
  else if e.score.lt (ofDecimal false 4 (-1)) then
    (some (proposePatch e), { status with
      improvementLog :=
        status.improvementLog ++
        [⟨status.iterations, e.score, lit "patch_search", some (proposePatch e), none⟩]
      logs := status.logs ++ [lit "[improve] proposing patch: " ++ proposePatch e] })
  else (none, status)

/-- `_is_complete` -/
def isComplete (output : Str) : Bool :=
  output ≠ [] ∧ [lit "[DONE]", lit "COMPLETE", lit "FINAL", lit "TERMINAL"].any fun sig =>
    sig <:+: upper output

end

/-! ## The loop -/

inductive Breaker where
  | budget
  | scope
  | stagnation
  deriving DecidableEq

/-- How the loop ends: `CircuitBreakerTripped`, or a `HarnessResult`. -/
inductive Ending where
  | tripped (breaker : Breaker) (reason : Str)
  | escalated (error : Str)
  | completed
  | exhausted (error : Str)
  deriving DecidableEq

/-- The entries of `context` that the loop reads. -/
structure Context where
  resources : Option Report
  currentScopeHash : Option Str
  deriving DecidableEq

/-- What `action_fn` does: it returns a text and an error, or raises. No error is the empty one. -/
inductive Outcome where
  | returned (text : Str) (error : Str)
  | raised (message : Str)
  deriving DecidableEq

def Outcome.resultText : Outcome → Str
  | .returned text _ => text
  | .raised _ => []

def Outcome.stepError : Outcome → Str
  | .returned _ error => error
  | .raised message => message

/-- What is left open in one iteration. -/
structure Iteration where
  /-- What the action leaves in `status`. -/
  act : Status → Status
  /-- What it puts under `context["resources"]`, where it does. -/
  report : Option Report
  /-- What it leaves under `context["current_scope_hash"]`. -/
  scope : Option Str → Option Str
  outcome : Outcome
  /-- `_compute_artifacts_hash` after the action. -/
  artifactsHash : Str
  /-- The files among the artifacts after the action. -/
  artifactsWritten : Nat

/-- The local variables of `_run_loop`. `next` and `stop` are what is left of the `range`. -/
structure LoopRun where
  status : Status
  context : Context
  next : Int
  stop : Int
  lastArtifactsHash : Str
  consecutiveUnchanged : Int
  ended : Option Ending

/-- `_run_loop` up to its loop. `goalHash` is `_hash_content(goal)`. -/
def LoopRun.start (status : Status) (loopId goalHash : Str) (context : Context) : LoopRun where
  status := { status with
    loopId := loopId
    status := lit "RUNNING"
    scopeHash := if status.scopeHash = [] then goalHash else status.scopeHash }
  context := context
  next := status.iterations
  stop := status.maxLoops
  lastArtifactsHash := status.artifactsHash
  consecutiveUnchanged := 0
  ended := none

namespace LoopRun

variable (lower upper : Str → Str) (s : LoopRun) (a : Iteration)

/-- The iteration is counted before the guards. -/
def counted : LoopRun :=
  { s with
    status := { s.status with
      iterations := s.next + 1
      currentAction := lit "iteration_" ++ (intLit (s.next + 1)).text }
    next := s.next + 1 }

/-- A circuit breaker. -/
def trip (breaker : Breaker) (reason : Str) : LoopRun :=
  { s with
    status := { s.status with status := lit "OPEN" }
    ended := some (.tripped breaker reason) }

/-- The guard of the budget. -/
def OverBudget : Prop := s.status.budgetCapUsd.le s.status.budgetSpentUsd = true

/-- The guard of the scope. Neither hash counts where it is empty. -/
def ScopeMismatch : Prop :=
  s.status.scopeHash ≠ [] ∧ ∃ current ∈ s.context.currentScopeHash, current ≠ [] ∧
    s.status.scopeHash ≠ current

instance : Decidable s.OverBudget := inferInstanceAs (Decidable (_ = true))

instance : Decidable s.ScopeMismatch :=
  inferInstanceAs (Decidable (_ ∧ ∃ current, current ∈ s.context.currentScopeHash ∧ _))

/-- The action. -/
def acted : LoopRun :=
  { s with
    status := a.act s.status
    context := ⟨a.report.or s.context.resources, a.scope s.context.currentScopeHash⟩ }

/-- The branch of a failed iteration. -/
def annealed (error : Str) : LoopRun :=
  let (fix, status) := s.status.anneal lower error
  let status := { status with nextAction := fix }
  if fix = lit "escalate_to_operator" then
    { s with status := { status with status := lit "FAILED" }, ended := some (.escalated error) }
  else { s with status := status }

/-- The artifacts after the action. -/
def observed : LoopRun :=
  { s with
    status := { s.status with artifactsHash := a.artifactsHash }
    consecutiveUnchanged :=
      if a.artifactsHash ≠ [] ∧ a.artifactsHash = s.lastArtifactsHash
        then s.consecutiveUnchanged + 1 else 0
    lastArtifactsHash := a.artifactsHash }

/-- The last part of an iteration: the result and the resources, and whether the loop is complete.
-/
def concluded (resultText : Str) : LoopRun :=
  let status :=
    { s.status with lastOutput := some resultText, nextAction := lit "next" }.account
    s.context.resources
  let s := { s with status := status, context := { s.context with resources := none } }
  if isComplete upper resultText then
    { s with status := { s.status with status := lit "COMPLETED" }, ended := some .completed }
  else s

/-- The iteration from its evaluation on. -/
def evaluated (resultText : Str) (e : Evaluation) : LoopRun :=
  match { s.status with lastEval := some e }.maybeImprove e with
  | (some patch, status) => { s with status := { status with nextAction := patch } }
  | (none, status) => { s with status := status }.concluded upper resultText

/-- The iteration after its action. -/
def settled : LoopRun :=
  if a.outcome.stepError ≠ [] then s.annealed lower a.outcome.stepError
  else
    let s := s.observed a
    if s.status.stallThreshold ≤ s.consecutiveUnchanged then
      s.trip .stagnation (lit "artifacts unchanged for " ++ (intLit s.consecutiveUnchanged).text ++
        lit " iterations")
    else
      s.evaluated upper a.outcome.resultText
        (evaluate upper a.outcome.resultText a.artifactsWritten s.lastArtifactsHash
          s.status.artifactsHash)

/-- One iteration. -/
def iterate : LoopRun :=
  let s := s.counted
  if s.OverBudget then
    s.trip .budget (lit "budget $" ++ s.status.budgetSpentUsd.text ++ lit " >= cap $" ++
      s.status.budgetCapUsd.text)
  else if s.ScopeMismatch then
    s.trip .scope (lit "scope_hash mismatch: " ++ s.context.currentScopeHash.getD [] ++
      lit " != " ++ s.status.scopeHash)
  else (s.acted a).settled lower upper a

/-- The end of the `range`. -/
def exhausted : LoopRun :=
  { s with
    status := { s.status with status := lit "OPEN" }
    ended := some (.exhausted
      (lit "max_loops (" ++ (intLit s.status.maxLoops).text ++ lit ") reached without completion"))
      }

/-- The guards let the action run. -/
def Runs : Prop := ¬ s.counted.OverBudget ∧ ¬ s.counted.ScopeMismatch

instance : Decidable s.Runs := inferInstanceAs (Decidable (_ ∧ _))

end LoopRun

/-! ## What an iteration adds to the totals -/

/-- What a report adds. An empty one adds nothing. -/
def ResourceUsage.account (res : ResourceUsage) (r : Report) : ResourceUsage :=
  if r.IsEmpty then res else res.add r

/-- The totals with the reports. -/
def totals (start : ResourceUsage) (reports : List Report) : ResourceUsage :=
  reports.foldl ResourceUsage.account start

theorem totals_append (start : ResourceUsage) (reports more : List Report) :
    totals start (reports ++ more) = totals (totals start reports) more := List.foldl_append

@[simp] theorem totals_nil (start : ResourceUsage) : totals start [] = start := rfl

theorem Status.account_resources (status : Status) (resources : Option Report) :
    (status.account resources).resources = totals status.resources resources.toList := by
  cases resources with
  | none => rfl
  | some r =>
    show _ = status.resources.account r
    unfold Status.account ResourceUsage.account
    by_cases h : r.IsEmpty <;> simp [h, Status.accountResources]

/-- What is spent is the cost of the totals, and stays it. -/
theorem Status.account_spent {status : Status}
    (h : status.budgetSpentUsd = status.resources.estimatedCost) (resources : Option Report) :
    (status.account resources).budgetSpentUsd =
        (status.account resources).resources.estimatedCost := by
  cases resources with
  | none => exact h
  | some r =>
    unfold Status.account
    by_cases hr : r.IsEmpty
    · simpa [hr] using h
    · simp [hr, Status.accountResources]

/-- Every diagnosis has its fix, so no failed iteration ends the loop. -/
theorem anneal_fix_ne (lower : Str → Str) (status : Status) (error : Str) :
    (status.anneal lower error).1 ≠ lit "escalate_to_operator" := by
  show prescribe (diagnose lower error) ≠ _
  unfold diagnose
  split
  · decide
  split
  · decide
  split
  · decide
  · decide

/-- The score asks for a patch. -/
def Evaluation.AsksPatch (e : Evaluation) : Prop :=
  (ofDecimal false 85 (-2)).le e.score = false ∧ e.score.lt (ofDecimal false 4 (-1)) = true

instance : DecidablePred Evaluation.AsksPatch := fun _ => inferInstanceAs (Decidable (_ ∧ _))

theorem Status.maybeImprove_cases (status : Status) (e : Evaluation) :
    (e.AsksPatch ∧ ∃ patch log logs, status.maybeImprove e =
      (some patch, { status with improvementLog := log, logs := logs })) ∨
      (¬ e.AsksPatch ∧ ∃ log, status.maybeImprove e =
        (none, { status with improvementLog := log })) := by
  unfold Status.maybeImprove Evaluation.AsksPatch
  cases hhigh : (ofDecimal false 85 (-2)).le e.score with
  | true => exact .inr ⟨by simp, _, rfl⟩
  | false =>
    cases hlow : e.score.lt (ofDecimal false 4 (-1)) with
    | true => exact .inl ⟨by simp, _, _, _, rfl⟩
    | false => exact .inr ⟨by simp, _, rfl⟩

namespace LoopRun

variable (lower upper : Str → Str) (s : LoopRun) (a : Iteration)

/-- After its action, the iteration gets to the accounting: it has not failed, the artifacts are not
stale, and the score asks for no patch. -/
def Reaches : Prop :=
  a.outcome.stepError = [] ∧ (s.observed a).consecutiveUnchanged < s.status.stallThreshold ∧
    ¬ (evaluate upper a.outcome.resultText a.artifactsWritten a.artifactsHash
      a.artifactsHash).AsksPatch

instance : Decidable (s.Reaches upper a) := inferInstanceAs (Decidable (_ ∧ _ ∧ _))

end LoopRun

/-- What the budget guard reads. -/
def Status.budget (status : Status) : ResourceUsage × PyFloat × PyFloat :=
  (status.resources, status.budgetSpentUsd, status.budgetCapUsd)

theorem Status.account_budget {status status' : Status} (h : status.budget = status'.budget)
    (resources : Option Report) :
    (status.account resources).budget = (status'.account resources).budget := by
  obtain ⟨hres, hspent, hcap⟩ : _ ∧ _ ∧ _ := by simpa [Status.budget, Prod.ext_iff] using h
  cases resources with
  | none => exact h
  | some r =>
    unfold Status.account
    by_cases hr : r.IsEmpty
    · simpa [hr] using h
    · simp [hr, Status.accountResources, Status.budget, hres, hcap]

namespace LoopRun

variable {lower upper : Str → Str} {s : LoopRun} {a : Iteration}

theorem annealed_eq (error : Str) :
    s.annealed lower error =
      { s with
        status :=
          { (s.status.anneal lower error).2 with nextAction := (s.status.anneal lower error).1 }
              } :=
  if_neg (anneal_fix_ne lower s.status error)

theorem annealed_budget (error : Str) :
    (s.annealed lower error).status.budget = s.status.budget := by
  rw [annealed_eq]
  rfl

theorem concluded_budget (resultText : Str) :
    (s.concluded upper resultText).status.budget =
    (s.status.account s.context.resources).budget := by
  have hkeep : ({ s.status with lastOutput := some resultText, nextAction := lit "next" } :
    Status).budget = s.status.budget := rfl
  rw [← Status.account_budget hkeep]
  unfold concluded
  by_cases h : isComplete upper resultText <;> simp only [h] <;> rfl

theorem evaluated_of_asks {e : Evaluation} (h : e.AsksPatch) (resultText : Str) :
    (s.evaluated upper resultText e).status.budget = s.status.budget := by
  unfold evaluated
  obtain ⟨-, patch, log, logs, hlog⟩ | ⟨hnot, -⟩ :=
    Status.maybeImprove_cases { s.status with lastEval := some e } e
  · rw [hlog]
    rfl
  · exact absurd h hnot

theorem evaluated_of_not_asks {e : Evaluation} (h : ¬ e.AsksPatch) (resultText : Str) :
    (s.evaluated upper resultText e).status.budget =
    (s.status.account s.context.resources).budget := by
  unfold evaluated
  obtain ⟨hasks, -⟩ | ⟨-, log, hlog⟩ :=
    Status.maybeImprove_cases { s.status with lastEval := some e } e
  · exact absurd hasks h
  · rw [hlog]
    refine (concluded_budget resultText).trans (Status.account_budget ?_ _)
    rfl

theorem settled_of_stale (h : a.outcome.stepError = [])
    (hstale : s.status.stallThreshold ≤ (s.observed a).consecutiveUnchanged) :
    (s.settled lower upper a).status.budget = s.status.budget := by
  rw [settled, if_neg (not_not.mpr h)]
  show (if s.status.stallThreshold ≤ (s.observed a).consecutiveUnchanged then _ else _ :
    LoopRun).status.budget = _
  rw [if_pos hstale]
  rfl

theorem settled_of_fresh (h : a.outcome.stepError = [])
    (hfresh : (s.observed a).consecutiveUnchanged < s.status.stallThreshold) :
    s.settled lower upper a = (s.observed a).evaluated upper a.outcome.resultText
      (evaluate upper a.outcome.resultText a.artifactsWritten a.artifactsHash a.artifactsHash) := by
  rw [settled, if_neg (not_not.mpr h)]
  exact if_neg (not_le.mpr hfresh)

/-- **What an iteration adds**: the report in the context, where it gets to the accounting. -/
theorem settled_of_reaches (h : s.Reaches upper a) :
    (s.settled lower upper a).status.budget = (s.status.account s.context.resources).budget := by
  obtain ⟨herror, hfresh, hpatch⟩ := h
  rw [settled_of_fresh herror hfresh, evaluated_of_not_asks hpatch]
  refine Status.account_budget ?_ _
  rfl

/-- Elsewhere it adds nothing. -/
theorem settled_of_not_reaches (h : ¬ s.Reaches upper a) :
    (s.settled lower upper a).status.budget = s.status.budget := by
  by_cases herror : a.outcome.stepError = []
  · rcases le_or_gt s.status.stallThreshold (s.observed a).consecutiveUnchanged with hstale | hfresh
    · exact settled_of_stale herror hstale
    · have hpatch :
          (evaluate upper a.outcome.resultText a.artifactsWritten a.artifactsHash
            a.artifactsHash).AsksPatch := by
        by_contra hnot
        exact h ⟨herror, hfresh, hnot⟩
      rw [settled_of_fresh herror hfresh, evaluated_of_asks hpatch]
      rfl
  · rw [settled, if_pos herror, annealed_budget]

theorem iterate_of_runs (h : s.Runs) :
    s.iterate lower upper a = (s.counted.acted a).settled lower upper a := by
  unfold iterate
  rw [if_neg h.1, if_neg h.2]

theorem iterate_of_not_runs (h : ¬ s.Runs) :
    (s.iterate lower upper a).status.budget = s.status.budget := by
  unfold iterate
  by_cases hbudget : s.counted.OverBudget
  · simp only [hbudget, if_true]
    rfl
  · by_cases hscope : s.counted.ScopeMismatch
    · simp only [hbudget, hscope, if_false, if_true]
      rfl
    · exact absurd ⟨hbudget, hscope⟩ h

end LoopRun

/-! ## Runs -/

inductive LoopEvent where
  | iteration (a : Iteration)
  | exhausted

/-- The loop with a history: what the actions have reported, and whether one ran when the cost of
what was reported had reached the cap. -/
structure Watched where
  run : LoopRun
  reports : List Report
  overran : Bool

section
variable (lower upper : Str → Str) (start : ResourceUsage)

/-- The iteration, watched. -/
def Watched.iterate (w : Watched) (a : Iteration) : Watched :=
  if w.run.Runs then
    { run := w.run.iterate lower upper a
      reports := w.reports ++ a.report.toList
      overran := w.overran || w.run.status.budgetCapUsd.le (totals start w.reports).estimatedCost }
  else { w with run := w.run.iterate lower upper a }

def step (w : Watched) : LoopEvent → Option Watched
  | .iteration a =>
    if w.run.ended = none ∧
      w.run.next < w.run.stop then some (w.iterate lower upper start a) else none
  | .exhausted =>
    if w.run.ended = none ∧
      w.run.stop ≤ w.run.next then some { w with run := w.run.exhausted } else none

/-- The loop as it begins. -/
def Watched.ofStatus (status : Status) (loopId goalHash : Str) (context : Context) : Watched :=
  ⟨.start status loopId goalHash context, [], false⟩

/-- The totals are what was reported, and no action ran over the cap. -/
structure Watched.Sees (w : Watched) : Prop where
  resources : w.run.status.resources = totals start w.reports
  inBudget : w.overran = false

/-- The action starts below the cap, and what the iteration counts is what it reports. -/
structure LoopRun.Counts (s : LoopRun) (a : Iteration) : Prop where
  below : s.status.budgetCapUsd.le s.status.resources.estimatedCost = false
  reaches : (s.counted.acted a).Reaches upper a →
    totals (a.act s.counted.status).resources (a.report.or s.context.resources).toList =
      totals s.status.resources a.report.toList
  elsewhere : ¬ (s.counted.acted a).Reaches upper a →
    (a.act s.counted.status).resources = totals s.status.resources a.report.toList

/-- The condition on an iteration: its action is stopped by a guard, or it counts what it reports.
-/
def Watched.Seen (w : Watched) : LoopEvent → Prop
  | .iteration a => w.run.ended = none → w.run.next < w.run.stop → w.run.Runs → w.run.Counts upper a
  | .exhausted => True

end

section
variable {lower upper : Str → Str} {start : ResourceUsage} {w w' : Watched}

theorem Status.resources_of_budget {status status' : Status} (h : status.budget = status'.budget) :
    status.resources = status'.resources := congrArg Prod.fst h

/-- **The totals after an iteration whose action runs**. -/
theorem iterate_resources {s : LoopRun} {a : Iteration} (h : s.Runs) :
    (s.iterate lower upper a).status.resources =
      if (s.counted.acted a).Reaches upper a then
        totals (a.act s.counted.status).resources (a.report.or s.context.resources).toList
      else (a.act s.counted.status).resources := by
  rw [LoopRun.iterate_of_runs h]
  by_cases hreach : (s.counted.acted a).Reaches upper a
  · rw [if_pos hreach, Status.resources_of_budget (LoopRun.settled_of_reaches hreach),
      Status.account_resources]
    rfl
  · rw [if_neg hreach, Status.resources_of_budget (LoopRun.settled_of_not_reaches hreach)]
    rfl

/-- One iteration sees its report exactly where it counts it. -/
theorem Watched.Sees.iterate_iff (h : w.Sees start) (a : Iteration) :
    (w.iterate lower upper start a).Sees start ↔ (w.run.Runs → w.run.Counts upper a) := by
  unfold Watched.iterate
  by_cases hruns : w.run.Runs
  · rw [if_pos hruns]
    have htotals : totals start (w.reports ++ a.report.toList) = totals w.run.status.resources
        a.report.toList := by
      rw [totals_append, ← h.resources]
    constructor
    · rintro ⟨hres, hbelow⟩ -
      rw [htotals, iterate_resources hruns] at hres
      refine ⟨?_, fun hreach => ?_, fun hreach => ?_⟩
      · rw [h.inBudget, Bool.false_or, ← h.resources] at hbelow
        exact hbelow
      · rwa [if_pos hreach] at hres
      · rwa [if_neg hreach] at hres
    · intro hcounts
      obtain ⟨hbelow, hreaches, helsewhere⟩ := hcounts hruns
      refine ⟨?_, ?_⟩
      · show (w.run.iterate lower upper a).status.resources = totals start
          (w.reports ++ a.report.toList)
        rw [htotals, iterate_resources hruns]
        split
        · next hreach => exact hreaches hreach
        · next hreach => exact helsewhere hreach
      · show (w.overran || w.run.status.budgetCapUsd.le (totals start w.reports).estimatedCost) =
          false
        rw [h.inBudget, Bool.false_or, ← h.resources, hbelow]
  · rw [if_neg hruns]
    refine iff_of_true ⟨?_, h.inBudget⟩ fun hr => absurd hr hruns
    show (w.run.iterate lower upper a).status.resources = totals start w.reports
    rw [Status.resources_of_budget (LoopRun.iterate_of_not_runs hruns), h.resources]

/-- One step. -/
theorem Watched.Sees.step_iff (h : w.Sees start) {e : LoopEvent}
    (hstep : step lower upper start w e = some w') : w'.Sees start ↔ w.Seen upper e := by
  cases e with
  | exhausted =>
    simp only [step, Option.ite_none_right_eq_some, Option.some.injEq] at hstep
    obtain ⟨-, rfl⟩ := hstep
    exact iff_of_true ⟨h.resources, h.inBudget⟩ trivial
  | iteration a =>
    simp only [step, Option.ite_none_right_eq_some, Option.some.injEq] at hstep
    obtain ⟨⟨hended, hnext⟩, rfl⟩ := hstep
    rw [h.iterate_iff a]
    exact ⟨fun hcounts _ _ => hcounts, fun hseen => hseen hended hnext⟩

theorem Watched.seen_of_none {e : LoopEvent} (h : step lower upper start w e = none) :
    w.Seen upper e := by
  cases e with
  | exhausted => trivial
  | iteration a =>
    intro hended hnext
    simp [step, hended, hnext] at h

/-- The loop sees everything along a run exactly where every iteration counts what it reports. -/
theorem Watched.Sees.along_iff (h : w.Sees start) (es : List LoopEvent) :
    (∀ fs t, fs <+: es → Machine.run (step lower upper start) w fs = some t → t.Sees start) ↔
      Along (step lower upper start) (Watched.Seen upper) w es := by
  rw [← along_iff_related (I := fun t => t.Sees start) (P := fun t => t.Sees start) (R :=
    fun _ _ => True) (fun _ => trivial) (fun _ _ _ _ _ => trivial) (fun _ ht => ht)
    (fun _ _ _ ht hseen hstep => (ht.step_iff hstep).mpr hseen) (fun _ _ => seen_of_none)
    (fun _ _ _ ht hstep => by rw [and_true, ht.step_iff hstep]) h]
  constructor
  · intro hall fs gs t u hfs ht hu
    refine ⟨hall (fs ++ gs) u hfs ?_, trivial⟩
    rw [run_append, ht]
    exact hu
  · intro hall fs t hfs ht
    exact (hall [] fs w t hfs rfl ht).1

end

/-- **The budget guard sees all costs exactly where every iteration counts what it reports**: in
every state of the run the totals are what was reported, and no action has started when the cost of
the reported tokens had reached the cap. -/
theorem budget_sees_iff (lower upper : Str → Str) (status : Status) (loopId goalHash : Str)
    (context : Context) (es : List LoopEvent) :
    (∀ fs w, fs <+: es →
        run (step lower upper status.resources) (.ofStatus status loopId goalHash context)
        fs = some w →
        w.run.status.resources = totals status.resources w.reports ∧ w.overran = false) ↔
      Along (step lower upper status.resources) (Watched.Seen upper)
          (.ofStatus status loopId goalHash context) es := by
  have hstart : (Watched.ofStatus status loopId goalHash context).Sees status.resources :=
    ⟨rfl, rfl⟩
  rw [← hstart.along_iff]
  constructor
  · intro hall fs w hfs hw
    obtain ⟨hres, hbudget⟩ := hall fs w hfs hw
    exact ⟨hres, hbudget⟩
  · intro hall fs w hfs hw
    have hsees := hall fs w hfs hw
    exact ⟨hsees.resources, hsees.inBudget⟩

/-! ## Actions that leave the totals alone -/

/-- The action does not write the totals, what is spent, or the cap. -/
def LoopEvent.HandsOff : LoopEvent → Prop
  | .iteration a => ∀ status, (a.act status).budget = status.budget
  | .exhausted => True

/-- What is spent is the cost of the totals. -/
def Watched.Priced (w : Watched) : Prop :=
  w.run.status.budgetSpentUsd = w.run.status.resources.estimatedCost

/-- The condition for such an action: an iteration that gets to the accounting finds its own report
there, or nothing, and one that does not has nothing to report. -/
def Watched.Reported (upper : Str → Str) (w : Watched) : LoopEvent → Prop
  | .iteration a => w.run.ended = none → w.run.next < w.run.stop → w.run.Runs →
      if (w.run.counted.acted a).Reaches upper a then
        a.report = none → totals w.run.status.resources w.run.context.resources.toList =
          w.run.status.resources
      else totals w.run.status.resources a.report.toList = w.run.status.resources
  | .exhausted => True

section
variable {lower upper : Str → Str} {start : ResourceUsage} {w w' : Watched}

theorem priced_of_budget {status status' : Status} (h : status.budget = status'.budget)
    (hpriced : status'.budgetSpentUsd = status'.resources.estimatedCost) :
    status.budgetSpentUsd = status.resources.estimatedCost := by
  have hspent : status.budgetSpentUsd = status'.budgetSpentUsd := congrArg (fun b => b.2.1) h
  rw [hspent, hpriced, Status.resources_of_budget h]

theorem Watched.Priced.step (h : w.Priced) {e : LoopEvent} (hoff : e.HandsOff)
    (hstep : RalphLoop.step lower upper start w e = some w') : w'.Priced := by
  cases e with
  | exhausted =>
    simp only [RalphLoop.step, Option.ite_none_right_eq_some, Option.some.injEq] at hstep
    obtain ⟨-, rfl⟩ := hstep
    exact h
  | iteration a =>
    simp only [RalphLoop.step, Option.ite_none_right_eq_some, Option.some.injEq] at hstep
    obtain ⟨-, rfl⟩ := hstep
    have hrun : (w.iterate lower upper start a).run = w.run.iterate lower upper a := by
      unfold Watched.iterate
      split <;> rfl
    unfold Watched.Priced
    rw [hrun]
    by_cases hruns : w.run.Runs
    · rw [LoopRun.iterate_of_runs hruns]
      have hacted : (w.run.counted.acted a).status.budget = w.run.status.budget :=
        hoff w.run.counted.status
      by_cases hreach : (w.run.counted.acted a).Reaches upper a
      · exact priced_of_budget (LoopRun.settled_of_reaches hreach)
          (Status.account_spent (priced_of_budget hacted h) _)
      · exact priced_of_budget (LoopRun.settled_of_not_reaches hreach) (priced_of_budget hacted h)
    · exact priced_of_budget (LoopRun.iterate_of_not_runs hruns) h

/-- Such an action runs below the cap, and only its report counts. -/
theorem Watched.Priced.seen_iff (h : w.Priced) {e : LoopEvent} (hoff : e.HandsOff) :
    w.Seen upper e ↔ w.Reported upper e := by
  cases e with
  | exhausted => exact Iff.rfl
  | iteration a =>
    refine forall_congr' fun _ => forall_congr' fun _ => forall_congr' fun hruns => ?_
    have hbelow : w.run.status.budgetCapUsd.le w.run.status.resources.estimatedCost = false := by
      rw [← show w.run.status.budgetSpentUsd = _ from h]
      exact Bool.eq_false_iff.mpr hruns.1
    have hacted : (a.act w.run.counted.status).resources = w.run.status.resources :=
      Status.resources_of_budget (hoff w.run.counted.status)
    by_cases hreach : (w.run.counted.acted a).Reaches upper a
    · rw [if_pos hreach]
      constructor
      · intro hcounts hnone
        have := hcounts.reaches hreach
        rwa [hacted, hnone] at this
      · intro hreported
        refine ⟨hbelow, fun _ => ?_, fun hnot => absurd hreach hnot⟩
        rw [hacted]
        cases hreport : a.report with
        | none => exact hreported hreport
        | some r => rfl
    · rw [if_neg hreach]
      constructor
      · intro hcounts
        rw [← hcounts.elsewhere hreach, hacted]
      · intro hreported
        exact ⟨hbelow, fun hyes => absurd hyes hreach, fun _ => by rw [hacted, hreported]⟩

/-- **Where the actions leave the totals alone**, the loop sees everything exactly where no report
is left behind, and none is counted for an iteration that did not make it. -/
theorem Watched.Sees.along_handsOff (h : w.Sees start) (hpriced : w.Priced) {es : List LoopEvent}
    (hoff : ∀ e ∈ es, e.HandsOff) :
    (∀ fs t, fs <+: es → Machine.run (RalphLoop.step lower upper start) w fs = some t →
      t.Sees start) ↔ Along (RalphLoop.step lower upper start) (Watched.Reported upper) w es := by
  have halong : Along (RalphLoop.step lower upper start) (fun _ e => e.HandsOff) w es :=
    along_of_mem fun e he _ => hoff e he
  have hkeep : ∀ {Q : Watched → LoopEvent → Prop} (t : Watched) (e : LoopEvent) (u : Watched),
    t.Priced → Q t e ∧ e.HandsOff → RalphLoop.step lower upper start t e = some u → u.Priced :=
    fun _ _ _ ht hq hstep => ht.step hq.2 hstep
  rw [h.along_iff]
  constructor
  · intro hseen
    exact along_of_along hkeep (fun _ _ ht hq => (ht.seen_iff hq.2).mp hq.1) hpriced
      (along_and.mpr ⟨hseen, halong⟩)
  · intro hreported
    exact along_of_along hkeep (fun _ _ ht hq => (ht.seen_iff hq.2).mpr hq.1) hpriced
      (along_and.mpr ⟨hreported, halong⟩)

end

instance (upper : Str → Str) (w : Watched) : (e : LoopEvent) → Decidable (w.Reported upper e)
  | .iteration a => inferInstanceAs (Decidable (w.run.ended = none → w.run.next < w.run.stop →
      w.run.Runs → if (w.run.counted.acted a).Reaches upper a then _ else _))
  | .exhausted => inferInstanceAs (Decidable True)

/-- An iteration that spends a thousand completion tokens and writes two files. -/
def writing (artifactsHash : String) : Iteration where
  act := id
  report := some ⟨none, some 1000, none, none, none, false⟩
  scope := id
  outcome := .returned (lit "both files are written") []
  artifactsHash := lit artifactsHash
  artifactsWritten := 2

/-- Two such iterations are seen. -/
theorem along_handsOff_writing :
    (run (step id id Status.default.resources) (.ofStatus .default [] (lit "g") ⟨none, none⟩)
      [.iteration (writing "a"), .iteration (writing "b")]).map
      (fun w => w.reports.length) = some 2 ∧
    ∀ fs t, fs <+: [.iteration (writing "a"), .iteration (writing "b")] →
      run (step id id Status.default.resources) (.ofStatus .default [] (lit "g") ⟨none, none⟩)
      fs = some t → t.Sees Status.default.resources := by
  have hpriced : (Watched.ofStatus .default [] (lit "g") ⟨none, none⟩).Priced := by
    unfold Watched.Priced
    decide +kernel
  refine ⟨by decide +kernel, (Watched.Sees.along_handsOff ⟨rfl, rfl⟩ hpriced ?_).mpr
    (by decide +kernel)⟩
  simp [LoopEvent.HandsOff, writing]

/-- An iteration that spends two million completion tokens and then fails. -/
def failing : Iteration where
  act := id
  report := some ⟨none, some 2000000, none, none, none, false⟩
  scope := id
  outcome := .returned [] (lit "timeout")
  artifactsHash := lit "a"
  artifactsWritten := 0

/-- The cap is one dollar. The first action has cost two, and the second one runs. -/
theorem failed_iteration_unseen :
    ¬ ∀ (lower upper : Str → Str) (status : Status) (loopId goalHash : Str) (context : Context)
    (es : List LoopEvent) (w : Watched),
      run (step lower upper status.resources) (.ofStatus status loopId goalHash context)
      es = some w →
        w.run.status.resources = totals status.resources w.reports ∧ w.overran = false := by
  intro h
  have hrun :
    (run (step id id Status.default.resources) (.ofStatus .default [] (lit "g") ⟨none, none⟩)
      [.iteration failing, .iteration failing]).map (fun w => (w.run.status.resources, w.overran)) =
        some (.default, true) := by decide +kernel
  obtain ⟨w, hw, hlost⟩ := Option.map_eq_some_iff.mp hrun
  have hover := (h id id .default [] (lit "g") ⟨none, none⟩ _ w hw).2
  rw [show w.overran = true from congrArg Prod.snd hlost] at hover
  cases hover

end RalphLoop
