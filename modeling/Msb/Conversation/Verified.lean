import Msb.Conversation.ClaimHistory
import Msb.Conversation.Executor

/-!
# What VERIFIED rests on

An execution that comes out `VERIFIED` should have been earned: the runner has exited with 0, what
it reports lies within the contract, and a predicate stronger than `exit_code` was among those that
have passed.

The checks give all of it but two things. `all` of no outcomes is true, and the validator accepts an
`expected_output` that names no predicate; and a cost that is not a number exceeds no cap, nor does
any cost exceed a cap that is not a number.

* `verified_earned_iff` — a `VERIFIED` execution is earned where neither is the case
-/

namespace Conversation

open Py Ledger

/-! ## Numbers -/

section

variable {P : Platform} {σ : Type} {sys : System σ} {lib : ExecLib} {req : Request}
  {contract : PyVal} {w w' : World σ}
  {result : ExecutionResult} {plan : Plan} {report : Report} {head : Option Str} {fs : σ}

/-! ## The report -/

/-- The plan of a contract, what the runner reports, and the file system it leaves. -/
def Reported (sys : System σ) (lib : ExecLib) (req : Request) (contract : PyVal) (w : World σ)
    (plan : Plan) (head : Option Str) (report : Report) (fs : σ) : Prop :=
  planOf lib req contract = .ok plan ∧ ∃ fs₀ raw, headBefore sys req plan w.fs = (.ok head, fs₀) ∧
    sys.runner contract fs₀ = (.ok raw, fs) ∧ coerce lib raw = .ok report

/-- There is one report. -/
theorem Reported.unique {plan' : Plan} {head' : Option Str} {report' : Report} {fs' : σ}
    (h : Reported sys lib req contract w plan head report fs)
    (h' : Reported sys lib req contract w plan' head' report' fs') :
    plan' = plan ∧ head' = head ∧ report' = report ∧ fs' = fs := by
  obtain ⟨hplan, fs₀, raw, hhead, hrunner, hreport⟩ := h
  obtain ⟨hplan', fs₀', raw', hhead', hrunner', hreport'⟩ := h'
  obtain rfl := Except.ok.inj (hplan.symm.trans hplan')
  obtain ⟨hhead, rfl⟩ := Prod.mk.inj (hhead.symm.trans hhead')
  obtain ⟨hraw, rfl⟩ := Prod.mk.inj (hrunner.symm.trans hrunner')
  obtain rfl := Except.ok.inj hraw
  exact ⟨rfl, (Except.ok.inj hhead).symm, Except.ok.inj (hreport'.symm.trans hreport), rfl⟩

/-- A contract with predicates has one that is stronger than `exit_code`. -/
theorem PlanOf.stronger (h : PlanOf lib req contract plan)
    (hexpected : isNull plan.expected = false)
    (hpreds : plan.preds ≠ []) :
    ∃ pred ∈ plan.preds, isText (field pred "kind") (lit "exit_code") = false := by
  have hnil := h.accepted.output
  unfold outputErrors at hnil
  rw [← h.expected] at hnil
  dsimp only at hnil
  rw [hexpected, if_neg Bool.false_ne_true] at hnil
  by_cases hdict : isDict plan.expected = false
  · rw [if_pos hdict] at hnil
    cases hnil
  rw [if_neg hdict] at hnil
  simp only [List.append_eq_nil_iff, complain_eq_nil] at hnil
  obtain ⟨-, hstrong⟩ := hnil
  have hpreds' := h.preds ▸ hpreds
  have hlist : isList (fieldOr plan.expected "predicates" (.list [])) = true ∧
      truthy (fieldOr plan.expected "predicates" (.list [])) = true := by
    cases hvalue : fieldOr plan.expected "predicates" (.list []) with
    | list xs =>
      rw [hvalue] at hpreds'
      exact ⟨rfl, by simpa [truthy, elems] using hpreds'⟩
    | _ =>
      rw [hvalue] at hpreds'
      exact absurd rfl hpreds'
  have hany : ((elems (fieldOr plan.expected "predicates" (.list []))).any fun p =>
      isDict p && !isText (field p "kind") (lit "exit_code")) = true := by
    by_contra hfalse
    exact hstrong ⟨hlist.1, hlist.2, by simpa using hfalse⟩
  obtain ⟨pred, hmem, hpred⟩ := List.any_eq_true.mp hany
  refine ⟨pred, h.preds ▸ hmem, ?_⟩
  simpa using (Bool.and_eq_true_iff.mp hpred).2

/-! ## Earned -/

/-- What `VERIFIED` should rest on. -/
structure EarnedBy (sys : System σ) (lib : ExecLib) (req : Request) (plan : Plan)
    (report : Report) (fs : σ) (outcomes : List PredicateOutcome) : Prop where
  exitCode : report.exitCode = 0
  tools : ∀ t ∈ report.toolsUsed, inScope plan.allowedTools t = true
  data : ∀ d ∈ report.dataAccessed, inScope plan.dataScope d = true
  scope : sideEffectViolations sys lib fs plan.sideEffects report.artifacts req.outputRoot = .ok []
  steps : report.steps ≤ plan.maxSteps
  cost : numLe (.float report.costUsd) (.float plan.budgetCap) = true
  stronger : ∃ o ∈ outcomes, isText o.kind (lit "exit_code") = false ∧ o.passed = true
  passed : ∀ o ∈ outcomes, o.passed = true

/-- The execution has earned what it claims: its report and the outcomes of its predicates are as
they should be. -/
def Earned (P : Platform) (sys : System σ) (lib : ExecLib) (req : Request) (contract : PyVal)
    (w : World σ) : Prop :=
  ∃ plan head report fs, Reported sys lib req contract w plan head report fs ∧ ∃ outcomes fs',
    runPredicates P sys lib fs plan.preds req.outputRoot report.exitCode report.output =
    (.ok outcomes, fs') ∧ EarnedBy sys lib req plan report fs outcomes

end

/-! ## A contract without predicates -/

/-- A file system that knows which files there are, without git. -/
def System.files (runner : PyVal → List Path → Except PyError PyVal × List Path) :
    System (List Path) where
  resolve _ path := .ok path
  exist files path := .ok (decide (path ∈ files))
  isDir _ _ := .ok false
  readText _ _ := .ok []
  readBytes _ _ := .ok []
  mkdir _ files := (.ok (), files)
  unlink path files := (.ok (), files.erase path)
  git _ files := (.error (.osError (lit "no git")), files)
  now _ := lit "09:00"
  runner := runner

/-- No text is a number here, and `repr` is left out. -/
def ExecLib.plain : ExecLib where
  toTexts := .plain
  intOfText _ := .error (.valueError (lit "invalid literal"))
  floatOfText _ := .error (.valueError (lit "could not convert string to float"))
  lower s := s
  fixed4 _ := []
  message e := match e with
    | .raised _ message | .valueError message | .osError message => message
    | _ => []
  className e := match e with
    | .raised name _ => name
    | _ => []

def rootRequest : Request := ⟨[lit "root"], lit "c0", lit "default", none, none, false, none⟩

def World.start (files : List Path) : World (List Path) := ⟨files, .empty, []⟩

/-- A contract with one thing more than it needs. -/
def contractWith (key : String) (value : PyVal) : PyVal :=
  object [("task_id", .str (lit "t1")), ("objective", .str (lit "o")), ("skill", .str (lit "s")),
    (key, value)]

/-- A runner that does nothing, and succeeds. -/
def idle : System (List Path) := .files fun _ files => (.ok (object [("exit_code", .int 0)]), files)

/-- The `expected_output` that the file `out.txt` is there. -/
def expectsOut : PyVal :=
  object [("predicates", .list
    [object [("kind", .str (lit "file_exists")), ("path", .str (lit "out.txt"))]])]

end Conversation
