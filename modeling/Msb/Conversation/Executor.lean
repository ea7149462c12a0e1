import Msb.Conversation.Registry
import Msb.Conversation.TaskContract

/-!
# The execution of a contract

`conversation/executor.py`: a runner does the work of a contract and reports what it has used; the
executor checks the report against the contract, runs the predicates, rolls back where they fail,
and hands a record of the outcome to the task producer.

The file system, git and the runner are a parameter (`System`). Whatever raises outside of the
runner call ends the execution with the exception, and nothing of it lands in the ledger.

* `executeContract` — one execution
* `executeContract_eq_ok` — what an execution that returns has gone through
-/

namespace Conversation

open Py Ledger

/-! ## What the executor calls -/

/-- The parts of an absolute path. -/
abbrev Path := List Str

structure GitResult where
  returncode : Int
  stdout : Str
  stderr : Str

/-- The file system, git, the clock and the runner. -/
structure System (σ : Type) where
  resolve : σ → Path → Except PyError Path
  exist : σ → Path → Except PyError Bool
  isDir : σ → Path → Except PyError Bool
  readText : σ → Path → Except PyError Str
  readBytes : σ → Path → Except PyError Bytes
  mkdir : Path → σ → Except PyError Unit × σ
  unlink : Path → σ → Except PyError Unit × σ
  git : List Str → σ → Except PyError GitResult × σ
  now : σ → Str
  runner : PyVal → σ → Except PyError PyVal × σ

/-- What the executor asks of the language, besides `str` and `repr`: `int(s)`, `float(s)`,
`s.lower()`, `f"{x:.4f}"`, `str(exc)`, and the name of the class of an exception. -/
structure ExecLib extends Texts where
  intOfText : Str → Except PyError Int
  floatOfText : Str → Except PyError PyFloat
  lower : Str → Str
  fixed4 : PyFloat → Str
  message : PyError → Str
  className : PyError → Str

/-- `int(v)` -/
def toInt (lib : ExecLib) : PyVal → Except PyError Int
  | .int i => .ok i
  | .bool b => .ok (if b then 1 else 0)
  | .float (.finite x) => .ok (if x.neg then -x.abs.floor else x.abs.floor)
  | .float .nan => .error (.valueError (lit "cannot convert float NaN to integer"))
  | .float (.inf _) =>
    .error (.raised (lit "OverflowError") (lit "cannot convert float infinity to integer"))
  | .str s => lib.intOfText s
  | _ => .error .typeError

/-- `float(v)` -/
def toFloat (lib : ExecLib) : PyVal → Except PyError PyFloat
  | .float f => .ok f
  | .int i =>
    match ofRat (i < 0) i.natAbs with
    | .finite x => .ok (.finite x)
    | _ => .error (.raised (lit "OverflowError") (lit "int too large to convert to float"))
  | .bool b => .ok (ofRat false (if b then 1 else 0))
  | .str s => lib.floatOfText s
  | _ => .error .typeError

/-! ### Paths -/

def slash : CodePoint := 47

/-- `base / rel` -/
def joinPath (base : Path) (rel : Str) : Path :=
  let parts := (rel.splitOn slash).filter fun p => p ≠ [] ∧ p ≠ lit "."
  if rel.head? = some slash then parts else base ++ parts

/-- `os.path.commonpath([base, target]) == base`, for resolved paths. -/
def within (base target : Path) : Bool := base.isPrefixOf target

/-- `s.split("**", 1)[0]` -/
def beforeGlob : Str → Str
  | a :: b :: s => if a = 42 ∧ b = 42 then [] else a :: beforeGlob (b :: s)
  | s => s

/-- `s.split("**", 1)[0].rstrip("/") or "."` -/
def declaredDir (raw : Str) : Str :=
  let norm := (beforeGlob raw).rdropWhile (· = slash)
  if norm = [] then lit "." else norm

/-- The text of a path element; what is no text is a `TypeError`. -/
def pathText : PyVal → Except PyError Str
  | .str s => .ok s
  | _ => .error .typeError

/-! ## The permission envelope -/

section

variable {σ : Type} (sys : System σ) (lib : ExecLib) (fs : σ)

/-- The directories that the contract declares, or the declaration that is refused. -/
def allowedDirs (base : Path) : List PyVal → Except PyError (Except Str (List Path))
  | [] => .ok (.ok [])
  | effect :: effects => do
    let path ← getOr effect "path" (.str [])
    let raw := lib.str path
    if strip raw = [] then
      .ok (.error (lit "side-effect declaration has an empty path — name a subpath"))
    else if raw.head? = some slash then
      .ok (.error (lit "side-effect declaration " ++ lib.repr (.str raw) ++
        lit " is absolute — name a path inside the output root"))
    else do
      let dir ← sys.resolve fs (joinPath base (declaredDir raw))
      if within base dir = false then
        .ok (.error (lit "side-effect declaration " ++ lib.repr (.str raw) ++
          lit " resolves outside the output root"))
      else do
        let rest ← allowedDirs base effects
        .ok (rest.map (dir :: ·))

/-- `target` of an artifact. -/
def artifactPath (base : Path) (art : PyVal) : Except PyError Path := do
  let rel ← pathText art
  sys.resolve fs (joinPath base rel)

/-- `ToolBroker.side_effect_violations` -/
def sideEffectViolations (declared artifacts : List PyVal) (outputRoot : Path) :
    Except PyError (List Str) :=
  if declared.isEmpty then
    .ok (artifacts.map fun a =>
      lit "artifact " ++ lib.repr a ++
        lit " outside declared side effects (none declared — fail closed)")
  else do
    let base ← sys.resolve fs outputRoot
    let dirs ← allowedDirs sys lib fs base declared
    match dirs with
    | .error refused => .ok [refused]
    | .ok dirs => do
      let targets ← artifacts.mapM fun a => (artifactPath sys fs base a).map fun target =>
        (a, target)
      .ok ((targets.filter fun t => (dirs.any fun d => within d t.2) = false).map fun t =>
        lit "artifact " ++ lib.repr t.1 ++ lit " outside declared side-effect scope")

end

/-! ## Predicates -/

/-- The outcome of a predicate. -/
structure PredicateOutcome where
  kind : PyVal
  passed : Bool
  detail : Str

def PredicateOutcome.dict (o : PredicateOutcome) : PyVal :=
  object [("kind", o.kind), ("passed", .bool o.passed), ("detail", .str o.detail)]

/-- `pred[key]` -/
def index (pred : PyVal) (key : String) : Except PyError PyVal :=
  if hasKey pred key then .ok (field pred key) else .error (.raised (lit "KeyError") (lit key))

/-- `except (ValueError, OSError, KeyError, TypeError)` -/
def failsPredicate : PyError → Bool
  | .valueError _ | .osError _ | .permissionError _ | .typeError | .jsonDecodeError
    | .unicodeEncodeError => true
  | .raised name _ => name = lit "KeyError"
  | _ => false

section

variable (P : Platform) {σ : Type} (sys : System σ) (lib : ExecLib) (fs : σ)

/-- `_scoped_path` -/
def scopedPath (root : Path) (rel : PyVal) : Except PyError Path := do
  let base ← sys.resolve fs root
  let text ← pathText rel
  let target ← sys.resolve fs (joinPath base text)
  if within base target then .ok target
  else .error (.valueError (lit "path escapes output scope: " ++ lib.repr rel))

/-- `_run_exit_code` -/
def runExitCode (pred : PyVal) (exitCode : Int) : Except PyError (Bool × Str) := do
  let want ← index pred "code"
  let hit := number (.int exitCode) = number want
  .ok (hit, lit "exit_code " ++ lib.repr (.int exitCode) ++
    (if hit then lit " == " else lit " != ") ++ lib.repr want)

/-- `_run_file_exists` -/
def runFileExists (pred : PyVal) (root : Path) : Except PyError (Bool × Str) := do
  let path ← index pred "path"
  let p ← scopedPath sys lib fs root path
  let there ← sys.exist fs p
  .ok (there, lib.str path ++ if there then lit " exists" else lit " missing")

/-- `_run_file_contains` -/
def runFileContains (pred : PyVal) (root : Path) : Except PyError (Bool × Str) := do
  let path ← index pred "path"
  let p ← scopedPath sys lib fs root path
  let there ← sys.exist fs p
  if there = false then .ok (false, lib.str path ++ lit " missing")
  else do
    let content ← sys.readText fs p
    let text ← index pred "text"
    let text ← pathText text
    let hit := decide (text <:+: content)
    .ok (hit, lib.str path ++ if hit then lit " contains text" else lit " missing text")

/-- `_run_file_not_contains` -/
def runFileNotContains (pred : PyVal) (root : Path) : Except PyError (Bool × Str) := do
  let path ← index pred "path"
  let p ← scopedPath sys lib fs root path
  let there ← sys.exist fs p
  if there = false then .ok (true, lib.str path ++ lit " absent (nothing to scan)")
  else do
    let content ← sys.readText fs p
    let text ← index pred "text"
    let text ← pathText text
    let hit := decide (text <:+: content)
    .ok (!hit, lib.str path ++ if hit then lit " contains forbidden text" else lit " clear of text")

/-- `_run_output_equals` -/
def runOutputEquals (pred output : PyVal) : Except PyError (Bool × Str) := do
  let got ← canonicalJson P output
  let expected ← index pred "expected"
  let want ← canonicalJson P expected
  .ok (got = want, if got = want then lit "output equals expected"
    else lit "output differs from expected")

/-- `_run_artifact_hash` -/
def runArtifactHash (pred : PyVal) (root : Path) : Except PyError (Bool × Str) := do
  let path ← index pred "path"
  let p ← scopedPath sys lib fs root path
  let there ← sys.exist fs p
  if there = false then .ok (false, lib.str path ++ lit " missing")
  else do
    let bytes ← sys.readBytes fs p
    let sha256 ← index pred "sha256"
    let sha256 ← pathText sha256
    let actual := P.hexdigest bytes
    let want := lib.lower sha256
    .ok (actual = want, if actual = want then lit "artifact hash matches"
      else lit "hash " ++ actual.take 12 ++ lit "… != " ++ want.take 12 ++ lit "…")

/-- `_PREDICATE_RUNNERS[kind]`; `none` for a kind that has none. -/
def predicateRunner (pred : PyVal) (root : Path) (exitCode : Int) (output : PyVal) :
    Option (Except PyError (Bool × Str)) :=
  let kind := field pred "kind"
  if isText kind (lit "exit_code") then some (runExitCode lib pred exitCode)
  else if isText kind (lit "file_exists") then some (runFileExists sys lib fs pred root)
  else if isText kind (lit "file_contains") then some (runFileContains sys lib fs pred root)
  else if isText kind (lit "file_not_contains") then some (runFileNotContains sys lib fs pred root)
  else if isText kind (lit "output_equals") then some (runOutputEquals P pred output)
  else if isText kind (lit "artifact_hash") then some (runArtifactHash P sys lib fs pred root)
  else none

/-- One predicate. -/
def runPredicate (root : Path) (exitCode : Int) (output pred : PyVal) :
    Except PyError PredicateOutcome :=
  let kind := field pred "kind"
  match predicateRunner P sys lib fs pred root exitCode output with
  | none => .ok ⟨kind, false, lit "unknown predicate kind " ++ lib.repr kind⟩
  | some (.ok (passed, detail)) => .ok ⟨kind, passed, detail⟩
  | some (.error e) => if failsPredicate e then .ok ⟨kind, false, lib.message e⟩ else .error e

/-- `run_predicates` -/
def runPredicates (preds : List PyVal) (root : Path) (exitCode : Int) (output : PyVal) :
    Except PyError (List PredicateOutcome) × σ :=
  match sys.mkdir root fs with
  | (.error e, fs) => (.error e, fs)
  | (.ok (), fs) => (preds.mapM (runPredicate P sys lib fs root exitCode output), fs)

/-- `predicates_pass` -/
def predicatesPass (outcomes : List PredicateOutcome) : Bool := outcomes.all PredicateOutcome.passed

end

/-! ## Rollback -/

section

variable {σ : Type} (sys : System σ) (lib : ExecLib)

/-- The loop of `file_delete`: how many artifacts were removed, or which one is a directory. -/
def deleteArtifacts (base : Path) : List PyVal → Nat → σ → Except PyError (Except PyVal Nat) × σ
  | [], removed, fs => (.ok (.ok removed), fs)
  | art :: arts, removed, fs =>
    match artifactPath sys fs base art with
    | .error e => (.error e, fs)
    | .ok p =>
      -- nothing outside of the root is deleted
      if within base p = false then deleteArtifacts base arts removed fs
      else
        match sys.exist fs p with
        | .error e => (.error e, fs)
        | .ok false => deleteArtifacts base arts removed fs
        | .ok true =>
          match sys.isDir fs p with
          | .error e => (.error e, fs)
          | .ok true => (.ok (.error art), fs)
          | .ok false =>
            match sys.unlink p fs with
            | (.error e, fs) => (.error e, fs)
            | (.ok (), fs) => deleteArtifacts base arts (removed + 1) fs

/-- Is the artifact still there? The path is not resolved here. -/
def stillThere (fs : σ) (base : Path) (art : PyVal) : Except PyError Bool := do
  let rel ← pathText art
  sys.exist fs (joinPath base rel)

/-- The part of `_run_rollback` for `file_delete`. -/
def fileDelete (artifacts : List PyVal) (outputRoot : Path) (fs : σ) :
    Except PyError (Bool × Str) × σ :=
  match sys.resolve fs outputRoot with
  | .error e => (.error e, fs)
  | .ok base =>
    match deleteArtifacts sys base artifacts 0 fs with
    | (.error e, fs) => (.error e, fs)
    | (.ok (.error art), fs) =>
      (.ok (false, lit "file_delete cannot confirm: " ++ lib.repr art ++ lit " is a directory"), fs)
    | (.ok (.ok removed), fs) =>
      match artifacts.mapM fun a => (stillThere sys fs base a).map fun there => (a, there) with
      | .error e => (.error e, fs)
      | .ok checked =>
        let remaining := (checked.filter Prod.snd).map Prod.fst
        if remaining.isEmpty
          then (.ok (true, lit "file_delete confirmed (" ++ natText removed ++ lit " removed)"), fs)
        else (.ok (false, lit "file_delete confirmation failed — still present: " ++ lib.repr
          (.list remaining)), fs)

/-- `except (subprocess.SubprocessError, OSError)` -/
def failsGit : PyError → Bool
  | .osError _ | .permissionError _ => true
  | .raised name _ => name = lit "TimeoutExpired" ∨ name = lit "SubprocessError"
  | _ => false

/-- A git command, and what follows it where it has run. -/
def gitThen (args : List Str) (fs : σ) (next : GitResult → σ → Except PyError (Bool × Str) × σ) :
    Except PyError (Bool × Str) × σ :=
  match sys.git args fs with
  | (.ok r, fs) => next r fs
  | (.error e, fs) =>
    if failsGit e then (.ok (false, lit "git_revert confirmation failed — " ++ lib.message e), fs)
      else (.error e, fs)

/-- The part of `_run_rollback` for `git_revert`. -/
def gitRevert (scope : Str) (outputRoot : Path) (preTaskHead : Option Str) (fs : σ) :
    Except PyError (Bool × Str) × σ :=
  match sys.resolve fs outputRoot with
  | .error e => (.error e, fs)
  | .ok base =>
    let root := (base.map fun p => slash :: p).flatten
    match preTaskHead with
    | none | some [] =>
      (.ok (false, lit "git_revert confirmation failed — no pre-task HEAD recorded"), fs)
    | some head =>
      gitThen sys lib [lit "-C", root, lit "reset", lit "--hard", head] fs fun reset fs =>
        if reset.returncode ≠ 0 then
          (.ok (false, lit "git_revert restore failed: " ++ (strip reset.stderr).take 120), fs)
        else gitThen sys lib [lit "-C", root, lit "rev-parse", lit "HEAD"] fs fun now fs =>
          if now.returncode ≠ 0 ∨ strip now.stdout ≠ head then
            (.ok (false, lit "git_revert confirmation failed — HEAD " ++
              (if (strip now.stdout).take 12 = [] then lit "?" else (strip now.stdout).take 12) ++
              lit " != pre-task " ++
              head.take 12), fs)
          else gitThen sys lib [lit "-C", root, lit "status", lit "--porcelain", lit "--", scope] fs
            fun status fs =>
            if status.returncode ≠ 0 ∨ strip status.stdout ≠ [] then
              (.ok (false, lit "git_revert confirmation failed — scope not clean after restore"),
                fs)
            else (.ok (true, lit "git_revert confirmed (HEAD " ++ head.take 12 ++
              lit ", scope clean)"), fs)

/-- `_run_rollback` -/
def runRollback (rollback : PyVal) (artifacts : List PyVal) (outputRoot : Path)
    (preTaskHead : Option Str) (fs : σ) : Except PyError (Bool × Str) × σ :=
  let kind := field rollback "kind"
  if isText kind (lit "file_delete") then fileDelete sys lib artifacts outputRoot fs
  else if isText kind (lit "git_revert") then
    gitRevert sys lib (lib.str (fieldOr rollback "scope" (.str []))) outputRoot preTaskHead fs
  else (.ok (false, lit "unknown rollback kind " ++ lib.repr kind), fs)

end

/-! ## The plan and the report -/

inductive ExecStatus where
  | submitted
  | verified
  | failed
  | rolledBack
  deriving DecidableEq

def ExecStatus.text : ExecStatus → Str
  | .submitted => lit "SUBMITTED"
  | .verified => lit "VERIFIED"
  | .failed => lit "FAILED"
  | .rolledBack => lit "ROLLED_BACK"

inductive FailureKind where
  | predicates
  | crash
  | budget
  | steps
  | permission
  | scope
  | rollbackFailed
  deriving DecidableEq

def FailureKind.text : FailureKind → Str
  | .predicates => lit "predicates"
  | .crash => lit "crash"
  | .budget => lit "budget"
  | .steps => lit "steps"
  | .permission => lit "permission"
  | .scope => lit "scope"
  | .rollbackFailed => lit "rollback_failed"

/-- What the executor reads of a valid contract. -/
structure Plan where
  budgetCap : PyFloat
  maxSteps : Int
  allowedTools : List Str
  dataScope : List Str
  sideEffects : List PyVal
  expected : PyVal
  preds : List PyVal
  rollback : PyVal

/-- `runner_result` -/
structure Report where
  exitCode : Int
  output : PyVal
  steps : Int
  costUsd : PyFloat
  toolsUsed : List PyVal
  dataAccessed : List PyVal
  artifacts : List PyVal

/-- What an execution has come to, before it is recorded. -/
structure Outcome where
  status : ExecStatus
  failureKind : Option FailureKind
  reason : Str
  predicateOutcomes : List PredicateOutcome := []

/-- The task ids of the entries of a dag, blank ones included. -/
def dagIds (dag : List PyVal) : List Str :=
  (dag.filter fun e => isStr (field e "task_id")).map fun e => textOf (field e "task_id")

/-- `v in scope`, for a list of texts. -/
def inScope (scope : List Str) (v : PyVal) : Bool := scope.any (isText v)

/-- The arguments of `execute_contract`, next to the contract and the runner. -/
structure Request where
  outputRoot : Path
  gitHead : Str
  tenantId : Str
  goal : Option Str
  dag : Option (List PyVal)
  dryRun : Bool
  preTaskHead : Option Str

/-- `dag or [contract]` -/
def Request.entries (req : Request) (contract : PyVal) : List PyVal :=
  match req.dag with
  | none | some [] => [contract]
  | some dag => dag

/-- A failure, with its kind. -/
def Outcome.fail (kind : FailureKind) (reason : Str) : Outcome := ⟨.failed, some kind, reason, []⟩

section

variable (P : Platform) {σ : Type} (sys : System σ) (lib : ExecLib) (req : Request)

/-- The contract is checked, and read. -/
def planOf (contract : PyVal) : Except PyError Plan := do
  let taskId ← get contract "task_id"
  raiseIf (isStr taskId = false ∨ truthy taskId = false)
    (.valueError (lit "legacy dag entries (no task_id) have no contract — cannot execute"))
  let errors ← validateContract lib.toTexts (dagIds (req.entries contract)) contract
  raiseIf (errors ≠ []) (.valueError (lit "invalid contract: " ++ join "; " errors))
  let constraints := orElse (field contract "constraints") (.dict [])
  let budgetCap ← toFloat lib (fieldOr constraints "budget_cap_usd" (.float (ofRat false 1)))
  let maxSteps ← toInt lib (fieldOr constraints "max_steps" (.int 12))
  let expected := field contract "expected_output"
  .ok {
    budgetCap, maxSteps, expected
    allowedTools := texts (field contract "allowed_tools")
    dataScope :=
      if truthy (field contract "allowed_data") then texts (field contract "allowed_data")
      else [req.tenantId]
    sideEffects := elems (field contract "side_effects")
    preds := elems (fieldOr expected "predicates" (.list []))
    rollback := field contract "rollback" }

/-- The HEAD before the task, where the contract reverts to it. -/
def headBefore (plan : Plan) (fs : σ) : Except PyError (Option Str) × σ :=
  if isText (field plan.rollback "kind") (lit "git_revert") ∧ req.preTaskHead = none then
    let root := (req.outputRoot.map fun p => slash :: p).flatten
    match sys.git [lit "-C", root, lit "rev-parse", lit "HEAD"] fs with
    | (.ok head, fs) => (.ok (if head.returncode = 0 then some (strip head.stdout) else none), fs)
    | (.error e, fs) => if failsGit e then (.ok none, fs) else (.error e, fs)
  else (.ok req.preTaskHead, fs)

/-- `list(raw.get(key) or [])` -/
def listOf (raw : PyVal) (key : String) : Except PyError (List PyVal) := do
  let v ← get raw key
  Vesta.iterate (orElse v (.list []))

/-- The report, read from what the runner returns. -/
def coerce (raw : PyVal) : Except PyError Report := do
  let exitCode ← getOr raw "exit_code" (.int 1)
  let exitCode ← toInt lib exitCode
  let output ← get raw "output"
  let steps ← getOr raw "steps" (.int 1)
  let steps ← toInt lib steps
  let costUsd ← getOr raw "cost_usd" (.float (.zero false))
  let costUsd ← toFloat lib costUsd
  let toolsUsed ← listOf raw "tools_used"
  let dataAccessed ← listOf raw "data_accessed"
  let artifacts ← listOf raw "artifacts"
  .ok { exitCode, output, steps, costUsd, toolsUsed, dataAccessed, artifacts }

/-- The report of a runner that crashed. -/
def Report.crashed : Report := ⟨1, .none, 1, .zero false, [], [], []⟩

/-- The checks of the report, in their order; `none` where it passes. -/
def refusal (plan : Plan) (report : Report) (fs : σ) : Except PyError (Option Outcome) := do
  let deniedTools := report.toolsUsed.filter fun t => !inScope plan.allowedTools t
  let deniedData := report.dataAccessed.filter fun d => !inScope plan.dataScope d
  if deniedTools.isEmpty = false then
    .ok (some (.fail .permission
      (lit "tool(s) outside allowed_tools: " ++ lib.repr (.list deniedTools))))
  else if deniedData.isEmpty = false then
    .ok (some (.fail .permission
      (lit "data outside allowed_data: " ++ lib.repr (.list deniedData))))
  else do
    let violations ← sideEffectViolations sys lib fs plan.sideEffects report.artifacts
      req.outputRoot
    if violations ≠ [] then .ok (some (.fail .scope (join "; " violations)))
    else if plan.maxSteps < report.steps then
      .ok (some (.fail .steps (lit "steps " ++ (intLit report.steps).text ++ lit " > max_steps " ++
        (intLit plan.maxSteps).text)))
    else if numLt (.float plan.budgetCap) (.float report.costUsd) = true then
      .ok (some (.fail .budget (lit "cost $" ++ lib.fixed4 report.costUsd ++ lit " > budget $" ++
        lib.fixed4 plan.budgetCap)))
    else if report.exitCode ≠ 0 then
      .ok (some (.fail .crash (lit "exit_code " ++ (intLit report.exitCode).text ++ lit " != 0")))
    else .ok none

/-- The reason of a failed verification: at most three of the predicates are named. -/
def failedReason (outcomes : List PredicateOutcome) : Str :=
  let failed := outcomes.filter fun o => !o.passed
  natText failed.length ++ lit "/" ++ natText outcomes.length ++ lit " predicates fail: " ++
    join "; " ((failed.take 3).map fun o => lib.str o.kind ++ lit ": " ++ o.detail)

/-- The predicates, and the rollback where they fail. -/
def verify (plan : Plan) (report : Report) (head : Option Str) (fs : σ) :
    Except PyError Outcome × σ :=
  match runPredicates P sys lib fs plan.preds req.outputRoot report.exitCode report.output with
  | (.error e, fs) => (.error e, fs)
  | (.ok outcomes, fs) =>
    if predicatesPass outcomes then
      (.ok ⟨.verified, none, lit "all expected_output predicates pass", outcomes⟩, fs)
    else
      let reason := failedReason lib outcomes
      if truthy plan.rollback = false then (.ok ⟨.failed, some .predicates, reason, outcomes⟩, fs)
      else
        match runRollback sys lib plan.rollback report.artifacts req.outputRoot head fs with
        | (.error e, fs) => (.error e, fs)
        | (.ok (confirmed, detail), fs) =>
          if confirmed then
            (.ok ⟨.rolledBack, some .predicates, reason ++ lit " — rollback " ++ detail, outcomes⟩,
              fs)
          else (.ok ⟨.failed, some .rollbackFailed, reason ++ lit " — " ++ detail, outcomes⟩, fs)

/-- From the report to the outcome. -/
def judge (plan : Plan) (report : Report) (head : Option Str) (fs : σ) :
    Except PyError Outcome × σ :=
  match refusal sys lib req plan report fs with
  | .error e => (.error e, fs)
  | .ok (some outcome) => (.ok outcome, fs)
  | .ok none =>
    if isNull plan.expected then
      (.ok ⟨.submitted, none, lit "executed, exit 0, no expected_output — never VERIFIED", []⟩, fs)
    else verify P sys lib req plan report head fs

/-- The runner, and what becomes of its work. Only the call of the runner is guarded. -/
def runContract (contract : PyVal) (plan : Plan) (head : Option Str) (fs : σ) :
    Except PyError (Outcome × Report) × σ :=
  match sys.runner contract fs with
  | (.error e, fs) =>
    (.ok (.fail .crash (lit "runner crashed: " ++ lib.className e ++ lit ": " ++ lib.message e),
      .crashed), fs)
  | (.ok raw, fs) =>
    match coerce lib raw with
    | .error e => (.error e, fs)
    | .ok report =>
      match judge P sys lib req plan report head fs with
      | (.error e, fs) => (.error e, fs)
      | (.ok outcome, fs) => (.ok (outcome, report), fs)

/-! ## The record -/

/-- The record without the id of its claim. -/
def recordItems (contract rollback : PyVal) (outcome : Outcome) (report : Report) (now : Str) :
    List (String × PyVal) :=
  [("record_version", .str (lit "1.0")), ("record_type", .str (lit "task")),
    ("task_id", field contract "task_id"),
    ("contract",
      object (["task_id", "objective", "skill", "args", "expected_output", "inputs",
        "preconditions",
      "side_effects"].map fun key => (key, field contract key))),
    ("outcome", .str outcome.status.text),
      ("failure_kind", outcome.failureKind.elim .none fun k => .str k.text),
    ("exit_code", .int report.exitCode), ("output", report.output),
    ("predicate_outcomes", .list (outcome.predicateOutcomes.map PredicateOutcome.dict)),
      ("rollback", rollback),
    ("tenant_id", .str req.tenantId), ("git_head", .str req.gitHead), ("recorded_at", .str now)]

/-- `_record_for` -/
def recordFor (contract rollback : PyVal) (outcome : Outcome) (report : Report) (now : Str) :
    Except PyError PyVal := do
  let items := recordItems req contract rollback outcome report now
  let mapping ← Task.polarityMapping P lib.toTexts (object items)
  .ok (object (items ++ [("claim_id", .str mapping.2.2)]))

/-- `_task_failed_event` -/
def taskFailedEvent (contract : PyVal) (outcome : Outcome) (now : Str) : PyVal :=
  object [("event", .str (lit "TASK_FAILED")), ("version", .str (lit "1.0")),
    ("task_id", field contract "task_id"),
    ("goal", .str (req.goal.getD [])), ("failed_step", field contract "task_id"),
    ("failed_index", .int 0),
    ("error", .str outcome.reason), ("attempt", .int 1), ("max_attempts", .int 1),
    ("decision", .str (if outcome.status = .rolledBack then lit "rollback" else lit "fail")),
    ("dag", .list (req.entries contract)), ("revised_dag", .none), ("ts", .str now)]

/-- `append_task_event`: the line that is written. -/
def appendTaskEvent (event : PyVal) (events : List PyVal) : Except PyError (List PyVal) := do
  raiseIf (isText (field event "event") (lit "TASK_FAILED") = false)
    (.valueError (lit "TASK_FAILED event requires event='TASK_FAILED'"))
  raiseIf (truthy (field event "task_id") = false ∨ truthy (field event "version") = false)
    (.valueError (lit "TASK_FAILED event requires task_id and version"))
  let line ← dumps P.keySort true plainStyle event
  let _ ← encodeE line
  .ok (events ++ [event])

/-- The file system, the ledger, and the stream of the failed tasks. -/
structure World (σ : Type) where
  fs : σ
  dir : LedgerDir
  events : List PyVal

structure ExecutionResult where
  outcome : Outcome
  claimId : Str
  evidenceRef : Str
  verdict : Option Verdict
  artifact : Artifact

/-- A status that is an event of the stream, too. -/
def ExecStatus.isFailure (s : ExecStatus) : Bool := s = .failed ∨ s = .rolledBack

/-- `_finalize` -/
def finalize (contract rollback : PyVal) (outcome : Outcome) (report : Report) (w : World σ) :
    Except PyError ExecutionResult × World σ :=
  match recordFor P lib req contract rollback outcome report (sys.now w.fs) with
  | .error e => (.error e, w)
  | .ok record =>
    match produce P lib.toTexts .task record w.dir req.gitHead req.dryRun none with
    | .error e => (.error e, w)
    | .ok (out, dir) =>
      let result : ExecutionResult :=
        ⟨outcome, out.claimId, out.evidenceRef, out.verdict, out.artifact⟩
      if outcome.status.isFailure ∧ req.dryRun = false then
        match appendTaskEvent P (taskFailedEvent req contract outcome (sys.now w.fs)) w.events with
        | .error e => (.error e, { w with dir })
        | .ok events => (.ok result, { w with dir, events })
      else (.ok result, { w with dir })

/-- `execute_contract` -/
def executeContract (contract : PyVal) (w : World σ) : Except PyError ExecutionResult × World σ :=
  match planOf lib req contract with
  | .error e => (.error e, w)
  | .ok plan =>
    match headBefore sys req plan w.fs with
    | (.error e, fs) => (.error e, { w with fs })
    | (.ok head, fs) =>
      match runContract P sys lib req contract plan head fs with
      | (.error e, fs) => (.error e, { w with fs })
      | (.ok (outcome, report), fs) =>
        finalize P sys lib req contract plan.rollback outcome report { w with fs }

end

/-! ## Executions that return -/

section

variable {P : Platform} {σ : Type} {sys : System σ} {lib : ExecLib} {req : Request} {plan : Plan}
  {report : Report}
  {head : Option Str} {fs fs' : σ} {outcome : Outcome} {contract rollback : PyVal} {w w' : World σ}
  {result : ExecutionResult}

theorem hasKey_of_get {v : PyVal} {key : String} (h : field v key ≠ .none) :
    hasKey v key = true := by
  cases v with
  | dict items =>
    show (getItem items (lit key)).isSome = true
    cases hitem : getItem items (lit key) with
    | none => exact absurd (by show (getItem items (lit key)).getD .none = .none; rw [hitem]; rfl) h
    | some v => rfl
  | _ => exact absurd rfl h

/-- The plan of a contract, which has been accepted. -/
structure PlanOf (lib : ExecLib) (req : Request) (contract : PyVal) (plan : Plan) : Prop where
  accepted : Accepted lib.toTexts (dagIds (req.entries contract)) contract
  expected : plan.expected = field contract "expected_output"
  preds : plan.preds = elems (fieldOr plan.expected "predicates" (.list []))
  rollback : plan.rollback = field contract "rollback"

theorem planOf_eq_ok (h : planOf lib req contract = .ok plan) : PlanOf lib req contract plan := by
  unfold planOf at h
  obtain ⟨taskId, htaskId, h⟩ := bind_eq_ok.mp h
  obtain ⟨⟨⟩, htext, h⟩ := bind_eq_ok.mp h
  obtain ⟨errors, herrors, h⟩ := bind_eq_ok.mp h
  obtain ⟨⟨⟩, hnone, h⟩ := bind_eq_ok.mp h
  obtain ⟨budgetCap, -, h⟩ := bind_eq_ok.mp h
  obtain ⟨maxSteps, -, h⟩ := bind_eq_ok.mp h
  obtain rfl := Except.ok.inj h
  have hcontract : isContract contract = true := by
    refine hasKey_of_get fun hfield => ?_
    have hnull : taskId = .none := by
      cases contract with
      | dict items => exact (Except.ok.inj htaskId).symm.trans hfield
      | _ => cases htaskId
    exact raiseIf_eq_ok.mp htext (.inl (by rw [hnull]; rfl))
  rw [not_not.mp (raiseIf_eq_ok.mp hnone)] at herrors
  exact ⟨validateContract_eq_nil herrors hcontract, rfl, rfl, rfl⟩

/-- A report that passes the checks. What compares with nothing exceeds no cap. -/
structure Passes (sys : System σ) (lib : ExecLib) (req : Request) (plan : Plan) (report : Report)
    (fs : σ) : Prop where
  tools : ∀ t ∈ report.toolsUsed, inScope plan.allowedTools t = true
  data : ∀ d ∈ report.dataAccessed, inScope plan.dataScope d = true
  scope : sideEffectViolations sys lib fs plan.sideEffects report.artifacts req.outputRoot = .ok []
  steps : report.steps ≤ plan.maxSteps
  cost : numLt (.float plan.budgetCap) (.float report.costUsd) = false
  exitCode : report.exitCode = 0

/-- The kinds of the failures that come before the predicates. -/
def earlyKinds : List FailureKind := [.permission, .scope, .steps, .budget, .crash]

/-- **The checks**: a report passes all of them, or the first that it fails names the failure. -/
theorem refusal_cases {refused : Option Outcome}
    (h : refusal sys lib req plan report fs = .ok refused) :
    (refused = none ∧ Passes sys lib req plan report fs) ∨
      (¬ Passes sys lib req plan report fs ∧ ∃ kind ∈ earlyKinds, ∃ reason,
        refused = some (.fail kind reason)) := by
  unfold refusal at h
  dsimp only at h
  by_cases htools : (report.toolsUsed.filter fun t => !inScope plan.allowedTools t).isEmpty = false
  · rw [if_pos htools] at h
    cases h
    refine .inr ⟨fun hpass => ?_, .permission, by decide, _, rfl⟩
    obtain ⟨t, ht⟩ := List.isEmpty_eq_false_iff_exists_mem.mp htools
    obtain ⟨hmem, hout⟩ := List.mem_filter.mp ht
    rw [hpass.tools t hmem] at hout
    cases hout
  rw [if_neg htools] at h
  by_cases hdata : (report.dataAccessed.filter fun d => !inScope plan.dataScope d).isEmpty = false
  · rw [if_pos hdata] at h
    cases h
    refine .inr ⟨fun hpass => ?_, .permission, by decide, _, rfl⟩
    obtain ⟨d, hd⟩ := List.isEmpty_eq_false_iff_exists_mem.mp hdata
    obtain ⟨hmem, hout⟩ := List.mem_filter.mp hd
    rw [hpass.data d hmem] at hout
    cases hout
  rw [if_neg hdata] at h
  obtain ⟨violations, hscope, h⟩ := bind_eq_ok.mp h
  by_cases hviolations : violations ≠ []
  · rw [if_pos hviolations] at h
    cases h
    refine .inr ⟨fun hpass => ?_, .scope, by decide, _, rfl⟩
    rw [hpass.scope] at hscope
    exact hviolations (Except.ok.inj hscope).symm
  rw [if_neg hviolations] at h
  by_cases hsteps : plan.maxSteps < report.steps
  · rw [if_pos hsteps] at h
    cases h
    exact .inr ⟨fun hpass => absurd hpass.steps (not_le.mpr hsteps), .steps, by decide, _, rfl⟩
  rw [if_neg hsteps] at h
  by_cases hcost : numLt (.float plan.budgetCap) (.float report.costUsd) = true
  · rw [if_pos hcost] at h
    cases h
    refine .inr ⟨fun hpass => ?_, .budget, by decide, _, rfl⟩
    rw [hpass.cost] at hcost
    cases hcost
  rw [if_neg hcost] at h
  by_cases hexit : report.exitCode ≠ 0
  · rw [if_pos hexit] at h
    cases h
    exact .inr ⟨fun hpass => hexit hpass.exitCode, .crash, by decide, _, rfl⟩
  rw [if_neg hexit] at h
  cases h
  refine .inl ⟨rfl, ?_, ?_, ?_, not_lt.mp hsteps, by simpa using hcost, not_not.mp hexit⟩
  · simpa using htools
  · simpa using hdata
  · rw [hscope, not_not.mp hviolations]

/-- What has become of the predicates of a contract, and of the rollback where they fail. -/
inductive Settled (P : Platform) (sys : System σ) (lib : ExecLib) (req : Request) (plan : Plan)
    (report : Report) (head : Option Str) (fs : σ) : Outcome → σ → Prop where
  | passed {outcomes fs₁}
    (hrun : runPredicates P sys lib fs plan.preds req.outputRoot report.exitCode report.output =
        (.ok outcomes, fs₁)) (hpass : predicatesPass outcomes = true) :
      Settled P sys lib req plan report head fs
        ⟨.verified, none, lit "all expected_output predicates pass", outcomes⟩ fs₁
  | failed {outcomes fs₁}
    (hrun : runPredicates P sys lib fs plan.preds req.outputRoot report.exitCode report.output =
        (.ok outcomes, fs₁)) (hpass : predicatesPass outcomes = false)
        (hrollback : truthy plan.rollback = false) :
      Settled P sys lib req plan report head fs
        ⟨.failed, some .predicates, failedReason lib outcomes, outcomes⟩ fs₁
  | rolledBack {outcomes fs₁ fs₂ detail}
      (hrun : runPredicates P sys lib fs plan.preds req.outputRoot report.exitCode report.output =
        (.ok outcomes, fs₁))
      (hpass : predicatesPass outcomes = false) (hrollback : truthy plan.rollback = true)
      (hconfirm : runRollback sys lib plan.rollback report.artifacts req.outputRoot head fs₁ =
        (.ok (true, detail), fs₂)) :
      Settled P sys lib req plan report head fs
        ⟨.rolledBack, some .predicates, failedReason lib outcomes ++ lit " — rollback " ++ detail,
          outcomes⟩ fs₂
  | incident {outcomes fs₁ fs₂ detail}
      (hrun : runPredicates P sys lib fs plan.preds req.outputRoot report.exitCode report.output =
        (.ok outcomes, fs₁))
      (hpass : predicatesPass outcomes = false) (hrollback : truthy plan.rollback = true)
      (hconfirm : runRollback sys lib plan.rollback report.artifacts req.outputRoot head fs₁ =
        (.ok (false, detail), fs₂)) :
      Settled P sys lib req plan report head fs
        ⟨.failed, some .rollbackFailed, failedReason lib outcomes ++ lit " — " ++ detail,
          outcomes⟩ fs₂

theorem verify_cases (h : verify P sys lib req plan report head fs = (.ok outcome, fs')) :
    Settled P sys lib req plan report head fs outcome fs' := by
  unfold verify at h
  rcases hrun : runPredicates P sys lib fs plan.preds req.outputRoot report.exitCode
    report.output with
    ⟨e | outcomes, fs₁⟩
  · rw [hrun] at h
    cases h
  rw [hrun] at h
  dsimp only at h
  cases hpass : predicatesPass outcomes with
  | true =>
    rw [hpass, if_pos rfl] at h
    cases h
    exact .passed hrun hpass
  | false =>
    rw [hpass, if_neg Bool.false_ne_true] at h
    cases hrollback : truthy plan.rollback with
    | false =>
      rw [hrollback, if_pos rfl] at h
      cases h
      exact .failed hrun hpass hrollback
    | true =>
      rw [hrollback, if_neg (by decide)] at h
      rcases hconfirm : runRollback sys lib plan.rollback report.artifacts req.outputRoot
        head fs₁ with
        ⟨e | ⟨confirmed, detail⟩, fs₂⟩
      · rw [hconfirm] at h
        cases h
      rw [hconfirm] at h
      cases confirmed with
      | true =>
        cases h
        exact .rolledBack hrun hpass hrollback hconfirm
      | false =>
        cases h
        exact .incident hrun hpass hrollback hconfirm

/-- What a report can come to, with the file system after it. -/
inductive Judged (P : Platform) (sys : System σ) (lib : ExecLib) (req : Request) (plan : Plan)
    (report : Report) (head : Option Str) (fs : σ) : Outcome → σ → Prop where
  | refused {kind reason} (hpass : ¬ Passes sys lib req plan report fs)
    (hkind : kind ∈ earlyKinds) : Judged P sys lib req plan report head fs (.fail kind reason) fs
  | submitted (hpass : Passes sys lib req plan report fs)
    (hexpected : isNull plan.expected = true) : Judged P sys lib req plan report head fs
        ⟨.submitted, none, lit "executed, exit 0, no expected_output — never VERIFIED", []⟩ fs
  | settled {outcome : Outcome} {fs' : σ} (hpass : Passes sys lib req plan report fs)
    (hexpected : isNull plan.expected = false)
      (hsettled : Settled P sys lib req plan report head fs outcome fs') :
      Judged P sys lib req plan report head fs outcome fs'

theorem judge_cases (h : judge P sys lib req plan report head fs = (.ok outcome, fs')) :
    Judged P sys lib req plan report head fs outcome fs' := by
  unfold judge at h
  cases hrefusal : refusal sys lib req plan report fs with
  | error e =>
    rw [hrefusal] at h
    cases h
  | ok refused =>
    rw [hrefusal] at h
    rcases refusal_cases hrefusal with ⟨rfl, hpass⟩ | ⟨hpass, kind, hkind, reason, rfl⟩
    · dsimp only at h
      cases hexpected : isNull plan.expected with
      | true =>
        rw [hexpected, if_pos rfl] at h
        cases h
        exact .submitted hpass hexpected
      | false =>
        rw [hexpected, if_neg Bool.false_ne_true] at h
        exact .settled hpass hexpected (verify_cases h)
    · cases h
      exact .refused hpass hkind

/-- The ways in which the work of a runner can end. -/
inductive Ran (P : Platform) (sys : System σ) (lib : ExecLib) (req : Request) (contract : PyVal)
    (plan : Plan) (head : Option Str) (fs : σ) : Outcome → Report → σ → Prop where
  | crashed {e fs₁} (hrunner : sys.runner contract fs = (.error e, fs₁)) :
      Ran P sys lib req contract plan head fs
        (.fail .crash (lit "runner crashed: " ++ lib.className e ++ lit ": " ++ lib.message e))
        .crashed fs₁
  | judged {raw : PyVal} {report : Report} {outcome : Outcome} {fs₁ fs₂ : σ}
      (hrunner : sys.runner contract fs = (.ok raw, fs₁)) (hreport : coerce lib raw = .ok report)
      (hjudged : Judged P sys lib req plan report head fs₁ outcome fs₂) :
      Ran P sys lib req contract plan head fs outcome report fs₂

theorem runContract_cases
    (h : runContract P sys lib req contract plan head fs = (.ok (outcome, report), fs')) :
    Ran P sys lib req contract plan head fs outcome report fs' := by
  unfold runContract at h
  rcases hrunner : sys.runner contract fs with ⟨e | raw, fs₁⟩
  · rw [hrunner] at h
    cases h
    exact .crashed hrunner
  rw [hrunner] at h
  dsimp only at h
  cases hreport : coerce lib raw with
  | error e =>
    rw [hreport] at h
    cases h
  | ok report' =>
    rw [hreport] at h
    dsimp only at h
    rcases hjudge : judge P sys lib req plan report' head fs₁ with ⟨e | outcome', fs₂⟩
    · rw [hjudge] at h
      cases h
    · rw [hjudge] at h
      cases h
      exact .judged hrunner hreport (judge_cases hjudge)

/-- The result of an execution, from what the producer returns. -/
def resultOf (outcome : Outcome) (out : Produced) : ExecutionResult :=
  ⟨outcome, out.claimId, out.evidenceRef, out.verdict, out.artifact⟩

/-- What has been recorded: the evidence, and the event of a failure. -/
inductive Finalized (P : Platform) (sys : System σ) (lib : ExecLib) (req : Request)
    (contract rollback : PyVal)
    (outcome : Outcome) (report : Report) (w : World σ) : ExecutionResult → World σ → Prop where
  | failure {record : PyVal} {out : Produced} {dir : LedgerDir} {events : List PyVal}
      (hrecord : recordFor P lib req contract rollback outcome report (sys.now w.fs) = .ok record)
      (hproduce : produce P lib.toTexts .task record w.dir req.gitHead req.dryRun none =
        .ok (out, dir))
      (hfailure : outcome.status.isFailure = true ∧ req.dryRun = false)
      (hevent : appendTaskEvent P (taskFailedEvent req contract outcome (sys.now w.fs)) w.events =
        .ok events) :
      Finalized P sys lib req contract rollback outcome report w (resultOf outcome out)
        { w with dir, events }
  | other {record : PyVal} {out : Produced} {dir : LedgerDir}
      (hrecord : recordFor P lib req contract rollback outcome report (sys.now w.fs) = .ok record)
      (hproduce : produce P lib.toTexts .task record w.dir req.gitHead req.dryRun none =
        .ok (out, dir))
      (hfailure : ¬ (outcome.status.isFailure = true ∧ req.dryRun = false)) :
      Finalized P sys lib req contract rollback outcome report w (resultOf outcome out)
        { w with dir }

theorem finalize_eq_ok : finalize P sys lib req contract rollback outcome report w =
    (.ok result, w') ↔ Finalized P sys lib req contract rollback outcome report w result w' := by
  constructor
  · intro h
    unfold finalize at h
    cases hrecord : recordFor P lib req contract rollback outcome report (sys.now w.fs) with
    | error e =>
      rw [hrecord] at h
      cases h
    | ok record =>
      rw [hrecord] at h
      dsimp only at h
      rcases hproduce : produce P lib.toTexts .task record w.dir req.gitHead req.dryRun none with e
        | ⟨out, dir⟩
      · rw [hproduce] at h
        cases h
      rw [hproduce] at h
      dsimp only at h
      by_cases hfailure : outcome.status.isFailure = true ∧ req.dryRun = false
      · rw [if_pos hfailure] at h
        cases hevent : appendTaskEvent P (taskFailedEvent req contract outcome (sys.now w.fs))
          w.events with
        | error e =>
          rw [hevent] at h
          cases h
        | ok events =>
          rw [hevent] at h
          cases h
          exact .failure hrecord hproduce hfailure hevent
      · rw [if_neg hfailure] at h
        cases h
        exact .other hrecord hproduce hfailure
  · intro h
    unfold finalize
    cases h with
    | failure hrecord hproduce hfailure hevent =>
      rw [hrecord]
      dsimp only
      rw [hproduce]
      dsimp only
      rw [if_pos hfailure, hevent]
      rfl
    | other hrecord hproduce hfailure =>
      rw [hrecord]
      dsimp only
      rw [hproduce]
      dsimp only
      rw [if_neg hfailure]
      rfl

/-- The record changes neither the outcome nor the files. -/
theorem Finalized.outcome_fs
    (h : Finalized P sys lib req contract rollback outcome report w result w') :
    result.outcome = outcome ∧ w'.fs = w.fs := by
  cases h with
  | failure => exact ⟨rfl, rfl⟩
  | other => exact ⟨rfl, rfl⟩

/-- **An execution that returns** has gone through the plan, the run and the record. -/
theorem executeContract_eq_ok : executeContract P sys lib req contract w = (.ok result, w') ↔
    ∃ plan head fs outcome report fs', planOf lib req contract = .ok plan ∧
    headBefore sys req plan w.fs = (.ok head, fs) ∧
      runContract P sys lib req contract plan head fs = (.ok (outcome, report), fs') ∧
        Finalized P sys lib req contract plan.rollback outcome report
        { w with fs := fs' } result w' := by
  constructor
  · intro h
    unfold executeContract at h
    cases hplan : planOf lib req contract with
    | error e =>
      rw [hplan] at h
      cases h
    | ok plan =>
      rw [hplan] at h
      dsimp only at h
      rcases hhead : headBefore sys req plan w.fs with ⟨e | head, fs⟩
      · rw [hhead] at h
        cases h
      rw [hhead] at h
      dsimp only at h
      rcases hrun : runContract P sys lib req contract plan head fs
        with ⟨e | ⟨outcome, report⟩, fs'⟩
      · rw [hrun] at h
        cases h
      · rw [hrun] at h
        exact ⟨plan, head, fs, outcome, report, fs', rfl, hhead, hrun, finalize_eq_ok.mp h⟩
  · rintro ⟨plan, head, fs, outcome, report, fs', hplan, hhead, hrun, hfinalized⟩
    unfold executeContract
    rw [hplan]
    dsimp only
    rw [hhead]
    dsimp only
    rw [hrun]
    exact finalize_eq_ok.mpr hfinalized

/-- The run of an execution that returns. -/
theorem ran_of_executeContract (h : executeContract P sys lib req contract w = (.ok result, w')) :
    ∃ plan head fs report, planOf lib req contract = .ok plan ∧ headBefore sys req plan w.fs =
    (.ok head, fs) ∧ Ran P sys lib req contract plan head fs result.outcome report w'.fs := by
  obtain ⟨plan, head, fs, outcome, report, fs', hplan, hhead, hrun, hfinalized⟩ :=
    executeContract_eq_ok.mp h
  obtain ⟨houtcome, hfs⟩ := hfinalized.outcome_fs
  refine ⟨plan, head, fs, report, hplan, hhead, ?_⟩
  rw [houtcome, hfs]
  exact runContract_cases hrun

end

end Conversation
