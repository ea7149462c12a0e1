import Msb.Agent.TaskGraph

/-!
# The executor

`agent/executor.py`: `execute_graph` runs the tasks of a graph in their order, each with its
retries, and stops at the first task that fails. What happens around a tool call is given for each
call by its number: what the switch says, and what the wrapped provider does (it may run past its
timeout).

* `Ran` — what stays true while calls are made
* `runAttempts_ran`, `runAttempts_done` — the calls of one task
* `executeTasks_induction` — induction over the tasks of a run
-/

namespace Agent

open Py

/-! ## Calls -/

/-- A call of `run_tool`: the provider before it, and what happens around it. -/
structure Call where
  before : SafeProvider
  env : CallEnv
  name : Str
  task : Task

def Call.attempt (c : Call) : Attempt := c.before.attempt c.env c.name c.task

/-- The call reached the wrapped provider. -/
def Call.Delegated (c : Call) : Prop := c.attempt.Delegated

/-- A dict of the outputs of a task: a name keeps its first place and its last value. -/
abbrev Outputs := List (Str × PyVal)

/-- `output[name] = result` -/
def setOutput (output : Outputs) (name : Str) (result : PyVal) : Outputs :=
  if output.any fun p => p.1 = name then output.map fun p =>
    if p.1 = name then (name, result) else p
  else output ++ [(name, result)]

/-- What the executor holds while a task runs: the provider, the calls so far and the output. -/
structure Exec where
  provider : SafeProvider
  calls : List Call
  output : Outputs

/-- One call. -/
def Exec.callTool (x : Exec) (env : Nat → CallEnv) (name : Str) (task : Task) :
    Except PyError PyVal × Exec :=
  let around := env x.calls.length
  let (result, provider) := x.provider.runTool around name task
  (result, { x with provider, calls := x.calls ++ [⟨x.provider, around, name, task⟩] })

/-! ## `execute_graph` -/

/-- `_retry_attempts`. `int` is the built-in; it has no value for a text that is no number. -/
def retryAttempts (int : Str → Option Int) (retryPolicy : Str) : Nat :=
  if (lit "retry:").isPrefixOf retryPolicy then ((int (retryPolicy.drop 6)).getD 0).toNat else 0

/-- What a verifier returns. -/
structure Receipt where
  ok : Bool
  detail : Str
  deriving DecidableEq

structure TaskResult where
  taskId : Str
  ok : Bool
  output : Outputs
  verification : Option Receipt
  attempts : Nat
  error : Option PyError

/-- Why a report is not `ok`. -/
inductive ExecError where
  | notExecutable (cause : PyError)
  | taskFailed (taskId : Str) (cause : PyError ⊕ Option Str)

structure ExecReport where
  ok : Bool
  goal : Str
  results : List TaskResult
  skipped : List Str
  error : Option ExecError

section

variable (env : Nat → CallEnv)

/-- The tools of one attempt, up to the first call that fails. -/
def runTools (task : Task) : List Str → Exec → Option PyError × Exec
  | [], x => (none, x)
  | name :: names, x =>
    match x.callTool env name task with
    | (.error e, x) => (some e, x)
    | (.ok result, x) => runTools task names { x with output := setOutput x.output name result }

/-- The attempts at a task, with the error of the last one and their number. The output stays. -/
def runAttempts (task : Task) : (retries : Nat) → Exec → Option PyError × Exec × Nat
  | 0, x =>
    let (error, x) := runTools env task task.tools x
    (error, x, 1)
  | retries + 1, x =>
    match runTools env task task.tools x with
    | (none, x) => (none, x, 1)
    | (some _, x) =>
      let (error, x, attempts) := runAttempts task retries x
      (error, x, attempts + 1)

variable (int : Str → Option Int) (verify : Task → Outputs → Except PyError Receipt)

/-- The body of the loop: one task. -/
def executeTask (task : Task) (x : Exec) : Except PyError TaskResult × Exec :=
  let (error, x, attempts) :=
    runAttempts env task (retryAttempts int task.retryPolicy) { x with output := [] }
  match error with
  | some e => (.ok ⟨task.taskId, false, x.output, none, attempts, some e⟩, x)
  | none =>
    match verify task x.output with
    | .error e => (.error e, x)
    | .ok receipt => (.ok ⟨task.taskId, receipt.ok, x.output, some receipt, attempts, none⟩, x)

/-- The error of a report: the one of the task, or what the verifier says. -/
def TaskResult.cause (result : TaskResult) : PyError ⊕ Option Str :=
  match result.error with
  | some e => .inl e
  | none => .inr (result.verification.map Receipt.detail)

/-- The tasks, up to the first one that fails. -/
def executeTasks (goal : Str) : List Task → List TaskResult → Exec →
    Except PyError ExecReport × Exec
  | [], results, x => (.ok ⟨true, goal, results, [], none⟩, x)
  | task :: rest, results, x =>
    match executeTask env int verify task x with
    | (.error e, x) => (.error e, x)
    | (.ok result, x) =>
      if result.ok then executeTasks goal rest (results ++ [result]) x
      else
        (.ok ⟨false, goal, results ++ [result], rest.map Task.taskId,
          some (.taskFailed task.taskId result.cause)⟩, x)

/-- `execute_graph` -/
def executeGraph (repr : List Str → Str) (graph : TaskGraph) (provider : SafeProvider) :
    Except PyError ExecReport × Exec :=
  match graph.order repr with
  | .error e => (.ok ⟨false, graph.goal, [], [], some (.notExecutable e)⟩, ⟨provider, [], []⟩)
  | .ok ordered => executeTasks env int verify graph.goal ordered [] ⟨provider, [], []⟩

end

/-! ## What a provider keeps -/

/-- A later state of a provider: the same approvals and grants, and no taint lost. -/
structure SafeProvider.Ext (p q : SafeProvider) : Prop where
  approved : q.approved = p.approved
  granted : q.granted = p.granted
  tainted : p.tainted ⊆ q.tainted

namespace SafeProvider.Ext

theorem refl (p : SafeProvider) : p.Ext p := ⟨rfl, rfl, List.Subset.refl _⟩

theorem trans {p q r : SafeProvider} (h : p.Ext q) (h' : q.Ext r) : p.Ext r :=
  ⟨h'.approved.trans h.approved, h'.granted.trans h.granted, fun _ hid =>
    h'.tainted (h.tainted hid)⟩

end SafeProvider.Ext

theorem SafeProvider.mem_taint {p : SafeProvider} {name : Str} {task : Task} {id : Str} :
    id ∈ (p.taint name task).tainted ↔
      id ∈ p.tainted ∨ id = task.taskId ∧ (p.taintedInputs task = true ∨ name ∈ taintedTools) := by
  unfold SafeProvider.taint
  by_cases hflow : p.taintedInputs task = true ∨ name ∈ taintedTools
  · have hcond : (p.taintedInputs task || taintedTools.contains name) = true := by simpa using hflow
    rw [if_pos hcond]
    by_cases hmem : task.taskId ∈ p.tainted
    · simp only [List.contains_iff_mem, hmem, if_true, hflow, and_true]
      exact ⟨Or.inl, fun h => h.elim (fun h => h) fun h => h ▸ hmem⟩
    · simp [hmem, hflow]
  · have hcond : ¬ (p.taintedInputs task || taintedTools.contains name) = true := by
      simpa using hflow
    rw [if_neg hcond]
    simp [hflow]

theorem SafeProvider.ext_taint (p : SafeProvider) (name : Str) (task : Task) :
    p.Ext (p.taint name task) := by
  refine ⟨?_, ?_, fun id hid => SafeProvider.mem_taint.mpr (Or.inl hid)⟩ <;>
    (unfold SafeProvider.taint; split <;> rfl)

/-- Taint that is in the inputs stays in them. -/
theorem SafeProvider.Ext.taintedInputs {p q : SafeProvider} (h : p.Ext q) {task : Task}
    (ht : p.taintedInputs task = true) : q.taintedInputs task = true := by
  unfold SafeProvider.taintedInputs at ht ⊢
  rw [List.any_eq_true] at ht ⊢
  obtain ⟨source, hsource, hcond⟩ := ht
  refine ⟨source, hsource, ?_⟩
  simp only [Bool.and_eq_true, decide_eq_true_eq, List.contains_iff_mem] at hcond ⊢
  exact ⟨hcond.1, h.tainted hcond.2⟩

/-! ## What the calls of a task keep -/

/-- From `x` to `y` the executor made the calls `new`, of tools among `names`, in that order, for a
task. -/
structure Ran (task : Task) (names : List Str) (x y : Exec) (new : List Call) : Prop where
  calls : y.calls = x.calls ++ new
  task : ∀ c ∈ new, c.task = task
  before : ∀ c ∈ new, x.provider.Ext c.before
  after : x.provider.Ext y.provider
  names : (new.map Call.name).Sublist names

namespace Ran

variable {task : Task} {names more : List Str} {x y z : Exec} {new later : List Call}

theorem refl (task : Task) (names : List Str) (x : Exec) : Ran task names x x [] where
  calls := (List.append_nil _).symm
  task := by simp
  before := by simp
  after := .refl _
  names := List.nil_sublist _

theorem append (h : Ran task names x y new) (h' : Ran task more y z later) :
    Ran task (names ++ more) x z (new ++ later) where
  calls := by rw [h'.calls, h.calls, List.append_assoc]
  task := by
    intro c hc
    exact (List.mem_append.mp hc).elim (h.task c) (h'.task c)
  before := by
    intro c hc
    exact (List.mem_append.mp hc).elim (h.before c) fun hc => h.after.trans (h'.before c hc)
  after := h.after.trans h'.after
  names := by
    rw [List.map_append]
    exact h.names.append h'.names

/-- The output is not looked at. -/
theorem output_left {output : Outputs} (h : Ran task names x y new) :
    Ran task names { x with output } y new := ⟨h.calls, h.task, h.before, h.after, h.names⟩

theorem mono (h : Ran task names x y new) (hsub : names.Sublist more) : Ran task more x y new :=
  ⟨h.calls, h.task, h.before, h.after, h.names.trans hsub⟩

end Ran

variable {env : Nat → CallEnv} {task : Task}

theorem callTool_ran (env : Nat → CallEnv) (task : Task) (name : Str) (x : Exec) :
    Ran task [name] x (x.callTool env name task).2
    [⟨x.provider, env x.calls.length, name, task⟩] where
  calls := rfl
  task := by simp
  before := by
    intro c hc
    obtain rfl := List.mem_singleton.mp hc
    exact .refl _
  after := by
    cases hrun : x.provider.runTool (env x.calls.length) name task with
    | mk result provider =>
      have hprovider : (x.callTool env name task).2.provider = provider := by
        simp only [Exec.callTool, hrun]
      rw [hprovider]
      cases result with
      | error e =>
        rw [SafeProvider.runTool_error hrun]
        exact .refl _
      | ok result =>
        rw [(SafeProvider.runTool_eq_ok hrun).2.2]
        exact x.provider.ext_taint name task
  names := List.Sublist.refl _

/-- A call that succeeds leaves the mark of its task where taint flows. -/
theorem callTool_eq_ok {x y : Exec} {name : Str} {result : PyVal}
    (h : x.callTool env name task = (.ok result, y)) : y.provider = x.provider.taint name task := by
  unfold Exec.callTool at h
  cases hrun : x.provider.runTool (env x.calls.length) name task with
  | mk r provider =>
    simp only [hrun, Prod.mk.injEq] at h
    obtain ⟨rfl, rfl⟩ := h
    exact (SafeProvider.runTool_eq_ok hrun).2.2

theorem runTools_ran (env : Nat → CallEnv) (task : Task) : ∀ (names : List Str) (x : Exec),
    ∃ new, Ran task names x (runTools env task names x).2 new
  | [], x => ⟨[], .refl _ _ _⟩
  | name :: names, x => by
    have hcall := callTool_ran env task name x
    rw [runTools]
    cases hx : x.callTool env name task with
    | mk result y =>
      rw [hx] at hcall
      cases result with
      | error e => exact ⟨_, hcall.mono (List.singleton_sublist.mpr List.mem_cons_self)⟩
      | ok result =>
        obtain ⟨new, hnew⟩ :=
          runTools_ran env task names { y with output := setOutput y.output name result }
        exact ⟨_, hcall.append hnew.output_left⟩

/-- Tools that all succeed leave the mark of their task where taint flows. -/
theorem runTools_done : ∀ {names : List Str} {x y : Exec}, runTools env task names x = (none, y) →
    (names ≠ [] → x.provider.taintedInputs task = true → task.taskId ∈ y.provider.tainted) ∧
      ((∃ name ∈ names, name ∈ taintedTools) → task.taskId ∈ y.provider.tainted)
  | [], x, y, _ => ⟨fun h => absurd rfl h, fun ⟨_, h, _⟩ => absurd h List.not_mem_nil⟩
  | name :: names, x, z, h => by
    rw [runTools] at h
    cases hx : x.callTool env name task with
    | mk result y =>
      rw [hx] at h
      cases result with
      | error e => cases h
      | ok result =>
        obtain ⟨new, hran⟩ :=
          runTools_ran env task names { y with output := setOutput y.output name result }
        have hz : runTools env task names { y with output := setOutput y.output name result } =
          (none, z) := h
        rw [hz] at hran
        have hmark : task.taskId ∈ y.provider.tainted → task.taskId ∈ z.provider.tainted :=
          fun hmem => hran.after.tainted hmem
        have hy := callTool_eq_ok hx
        refine ⟨fun _ hflow => hmark ?_, ?_⟩
        · rw [hy, SafeProvider.mem_taint]
          exact Or.inr ⟨rfl, Or.inl hflow⟩
        · rintro ⟨tool, htool, htaints⟩
          rcases List.mem_cons.mp htool with rfl | htool
          · refine hmark ?_
            rw [hy, SafeProvider.mem_taint]
            exact Or.inr ⟨rfl, Or.inr htaints⟩
          · exact (runTools_done hz).2 ⟨tool, htool, htaints⟩

/-- The tools of a task, as often as it may be tried. -/
def schedule (task : Task) (retries : Nat) : List Str :=
  (List.replicate (retries + 1) task.tools).flatten

theorem runAttempts_ran (env : Nat → CallEnv) (task : Task) : ∀ (retries : Nat) (x : Exec),
    ∃ new, Ran task (schedule task retries) x (runAttempts env task retries x).2.1 new
  | 0, x => by
    obtain ⟨new, hnew⟩ := runTools_ran env task task.tools x
    refine ⟨new, hnew.mono ?_⟩
    simp [schedule]
  | retries + 1, x => by
    obtain ⟨new, hnew⟩ := runTools_ran env task task.tools x
    have hschedule : schedule task (retries + 1) = task.tools ++ schedule task retries := rfl
    rw [runAttempts, hschedule]
    cases hx : runTools env task task.tools x with
    | mk error y =>
      rw [hx] at hnew
      cases error with
      | none => exact ⟨new, hnew.mono (List.sublist_append_left _ _)⟩
      | some e =>
        obtain ⟨later, hlater⟩ := runAttempts_ran env task retries y
        exact ⟨new ++ later, hnew.append hlater⟩

/-- An attempt that succeeds leaves the mark of its task where taint flows. -/
theorem runAttempts_done : ∀ {retries : Nat} {x y : Exec} {attempts : Nat},
    runAttempts env task retries x = (none, y, attempts) →
    (task.tools ≠ [] → x.provider.taintedInputs task = true → task.taskId ∈ y.provider.tainted) ∧
      ((∃ name ∈ task.tools, name ∈ taintedTools) → task.taskId ∈ y.provider.tainted)
  | 0, x, z, attempts, h => by
    rw [runAttempts] at h
    cases hx : runTools env task task.tools x with
    | mk error y =>
      rw [hx] at h
      simp only [Prod.mk.injEq] at h
      obtain ⟨rfl, rfl, -⟩ := h
      exact runTools_done hx
  | retries + 1, x, z, attempts, h => by
    rw [runAttempts] at h
    obtain ⟨new, hnew⟩ := runTools_ran env task task.tools x
    cases hx : runTools env task task.tools x with
    | mk error y =>
      rw [hx] at h hnew
      cases error with
      | none =>
        obtain ⟨-, h⟩ := Prod.mk.inj h
        obtain ⟨rfl, -⟩ := Prod.mk.inj h
        exact runTools_done hx
      | some e =>
        cases hy : runAttempts env task retries y with
        | mk error rest =>
          simp only [hy, Prod.mk.injEq] at h
          obtain ⟨rfl, rfl, -⟩ := h
          have hrest : runAttempts env task retries y = (none, rest.1, rest.2) := hy
          obtain ⟨hflow, htaints⟩ := runAttempts_done hrest
          exact ⟨fun hne hin => hflow hne (hnew.after.taintedInputs hin), htaints⟩

/-! ## What a run keeps -/

variable {int : Str → Option Int} {verify : Task → Outputs → Except PyError Receipt}

/-- The calls of one task are made in turn, and a task that ends well has all its tools behind it.
-/
theorem executeTask_spec (task : Task) (x : Exec) :
    ∃ new, Ran task (schedule task (retryAttempts int task.retryPolicy)) x
        (executeTask env int verify task x).2 new ∧
      ∀ result y, executeTask env int verify task x = (.ok result, y) → result.ok = true →
        (task.tools ≠ [] → x.provider.taintedInputs task = true →
          task.taskId ∈ y.provider.tainted) ∧
          ((∃ name ∈ task.tools, name ∈ taintedTools) → task.taskId ∈ y.provider.tainted) := by
  obtain ⟨new, hnew⟩ :=
    runAttempts_ran env task (retryAttempts int task.retryPolicy) { x with output := [] }
  refine ⟨new, ?_⟩
  unfold executeTask
  cases hrun : runAttempts env task (retryAttempts int task.retryPolicy)
    { x with output := [] } with
  | mk error rest =>
    rw [hrun] at hnew
    have hran : Ran task (schedule task (retryAttempts int task.retryPolicy)) x rest.1 new :=
      ⟨hnew.calls, hnew.task, hnew.before, hnew.after, hnew.names⟩
    cases error with
    | some e =>
      refine ⟨hran, fun result y h hok => ?_⟩
      obtain ⟨hresult, -⟩ := Prod.mk.inj h
      obtain rfl := Except.ok.inj hresult
      cases hok
    | none =>
      have hend : runAttempts env task (retryAttempts int task.retryPolicy)
        { x with output := [] } = (none, rest.1, rest.2) := hrun
      have hdone := runAttempts_done hend
      simp only []
      cases hverify : verify task rest.1.output with
      | error e => exact ⟨hran, fun result y h => by cases h⟩
      | ok receipt =>
        refine ⟨hran, fun result y h _ => ?_⟩
        obtain ⟨-, rfl⟩ := Prod.mk.inj h
        exact hdone

/-- **Induction over the tasks of a run**: what one task keeps, whether it ends well or not. -/
theorem executeTasks_induction {P : List Task → Exec → Prop} {Q : Exec → Prop} {goal : Str}
    (hend : ∀ done x, P done x → Q x) :
    ∀ {rest : List Task} (done : List Task) {results : List TaskResult} {x : Exec},
      (∀ mid task tail y, rest = mid ++ task :: tail → P (done ++ mid) y →
        Q (executeTask env int verify task y).2 ∧
          ∀ result z, executeTask env int verify task y = (.ok result, z) → result.ok = true →
            P (done ++ mid ++ [task]) z) →
      P done x → Q (executeTasks env int verify goal rest results x).2
  | [], done, results, x, _, h => hend done x h
  | task :: rest, done, results, x, hstep, h => by
    obtain ⟨hfail, hok⟩ := hstep [] task rest x rfl (by rwa [List.append_nil])
    rw [executeTasks]
    cases hx : executeTask env int verify task x with
    | mk result y =>
      rw [hx] at hfail
      cases result with
      | error e => exact hfail
      | ok result =>
        by_cases hresult : result.ok = true
        · simp only [hresult, if_true]
          refine executeTasks_induction hend (done ++ [task])
            (fun mid task' tail z hrest hP => ?_) ?_
          · have hstep' := hstep (task :: mid) task' tail z (by rw [hrest]; rfl)
            rw [show done ++ task :: mid = done ++ [task] ++ mid by simp] at hstep'
            exact hstep' hP
          · have hone := hok result y hx hresult
            rwa [List.append_nil] at hone
        · simp only [hresult]
          exact hfail

end Agent
