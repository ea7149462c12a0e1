import Msb.Infra.Keyed
import Msb.Infra.Number
import Msb.Infra.Text

/-!
# The software factory

`factory/pipeline.py` and its stages: an issue is planned, built in a copy of the repository,
tested, reviewed and verified. What the stages outside of this file answer (the classifier, the
planner, the builder, the test command, MoIE, the code graph) is an environment. The hashes of the
evidence chain are left out.

* `computeChanges`, `isDocsOnlyChange`, `verify`, `reviewFromDecision`
* `processIssue`
-/

namespace Factory

open Py

/-! ## The two trees -/

/-- The regular files of a tree by their relative paths, and its directories. -/
structure Tree where
  files : List (Str × Bytes)
  dirs : List Str
  unique : Keyed.Unique Prod.fst files

/-- The content of a file. -/
def Tree.read (tree : Tree) (path : Str) : Option Bytes :=
  (Keyed.find Prod.fst path tree.files).map Prod.snd

/-- `path.exists()` -/
def Tree.Exists (tree : Tree) (path : Str) : Prop := (tree.read path).isSome = true ∨
    path ∈ tree.dirs

instance (tree : Tree) (path : Str) : Decidable (tree.Exists path) :=
  inferInstanceAs (Decidable (_ ∨ _))

/-- The parts of a relative path. -/
def parts (path : Str) : List Str := path.splitOn 47

/-- `_EXCLUDE_DIRS` -/
def excludeDirs : List Str :=
  [lit ".git", lit ".venv", lit "venv", lit "env", lit "node_modules", lit "__pycache__",
    lit ".mypy_cache", lit ".pytest_cache",
    lit ".ruff_cache", lit "data", lit ".env", lit ".terraform", lit ".next", lit "dist",
    lit "build", lit "logs"]

/-- The path is not copied into a worktree. -/
def excluded (path : Str) : Bool :=
  (parts path).any fun part => excludeDirs.contains part || (lit ".pyc").isSuffixOf part ||
    (lit ".pyo").isSuffixOf part

/-- `sorted(wt_root.rglob("*"))`, the files only -/
def Tree.sortedPaths (tree : Tree) : List Str := (tree.files.map Prod.fst).insertionSort fun a b =>
    parts a ≤ parts b

/-- The changed files of `compute_changes`. A path that cannot be read as a file is skipped. -/
def computeChanges (repo worktree : Tree) : List Str :=
  worktree.sortedPaths.filter fun path =>
    if ¬ repo.Exists path then true
    else
      match repo.read path, worktree.read path with
      | some old, some new => decide (new ≠ old)
      | _, _ => false

/-! ## Tests -/

/-- What is asked of the language: `s.lower()`, which leaves no capital letter of ASCII, the class
and the text of an exception, and `repr`. -/
structure FactoryLib where
  lower : Str → Str
  lower_ascii : ∀ s, ∀ c ∈ lower s, ¬ (65 ≤ c.val ∧ c.val ≤ 90)
  className : PyError → Str
  message : PyError → Str
  repr : Str → Str

variable (lib : FactoryLib)

/-- `_DOC_EXTENSIONS` -/
def docExtensions : List Str :=
  [lit ".md", lit ".markdown", lit ".rst", lit ".txt", lit ".adoc", lit ".asciidoc", lit ".tex"]

/-- `_DOC_FILENAMES` -/
def docFilenames : List Str :=
  [lit "readme", lit "readme.md", lit "license", lit "license.txt", lit "changelog",
    lit "contributing", lit "authors"]

/-- `_DOC_DIRS` -/
def docDirs : List Str := [lit "docs", lit "documentation", lit "doc"]

/-- One path of `is_docs_only_change`. -/
def isDocFile (rel : Str) : Bool :=
  let p := lib.lower (rel.map fun c => if c = 92 then 47 else c)
  docExtensions.any (fun extension => extension.isSuffixOf p) ||
    docFilenames.contains ((parts (p.rdropWhile (· = 47))).getLastD []) ||
    (parts p).dropLast.any fun part => docDirs.contains part

/-- `is_docs_only_change` -/
def isDocsOnlyChange (changedFiles : List Str) : Bool := changedFiles.all (isDocFile lib)

structure TestEvidence where
  command : Str
  exitCode : Option Int
  passed : Bool
  outputHead : Str
  durationS : Str
  ran : Bool
  skipped : Bool
  skipReason : Str

/-- `TestEvidence()` -/
def TestEvidence.blank : TestEvidence := ⟨[], none, false, [], lit "0.0", false, false, []⟩

/-- `docs_only_skip` -/
def docsOnlySkip : TestEvidence :=
  { TestEvidence.blank with
    skipped := true
    skipReason := lit "docs-only change — full test suite not required by policy" }

/-- What becomes of the test command. -/
inductive TestRun where
  | noCommand
  | exited (command : Str) (code : Int) (output durationS : Str)
  | timedOut (command : Str)

/-- `run_tests` -/
def TestRun.evidence : TestRun → TestEvidence
  | .noCommand => TestEvidence.blank
  | .exited command code output durationS =>
    ⟨command, some code, decide (code = 0), output.drop (output.length - 3000), durationS, true,
      false, []⟩
  | .timedOut command =>
    { TestEvidence.blank with command := command, outputHead := lit "timed out", ran := true }

/-! ## Plans and builds -/

structure PlanStep where
  stepId : Str
  title : Str
  action : Str
  acceptance : List Str

structure Plan where
  goal : Str
  steps : List PlanStep

/-- The acceptance criteria, each once. -/
def Plan.criteria (plan : Plan) : List Str := (plan.steps.flatMap PlanStep.acceptance).eraseDups

structure BuildResult where
  ok : Bool
  changedFiles : List Str
  diff : Str
  outputHead : Str
  error : Option Str
  builder : Str

/-! ## The review -/

inductive Severity where
  | info
  | concern
  | blocker
  deriving DecidableEq

structure ReviewFinding where
  severity : Severity
  message : Str

structure Review where
  verdict : Str
  findings : List ReviewFinding
  moieVerdict : Str
  reviewerModels : List Str

/-- A decision of MoIE, as far as the review reads it. -/
structure Decision where
  verdict : Str
  reportModels : List Str
  recommendedActions : List Str
  metaCritique : Str

/-- What the review is given: the decision of MoIE (`None` if it raised), the verbs that the
coherence scan finds in the diff, and the hits of the code graph. -/
structure ReviewInput where
  decision : Option Decision
  scanned : List Str
  hits : List Str

def approve : Str := lit "APPROVE"
def concern : Str := lit "CONCERN"
def block : Str := lit "BLOCK"

def scanFinding (verb : Str) : ReviewFinding :=
  ⟨.concern, lit "deterministic coherence scan: the change both asserts and negates '" ++ verb ++
    lit "' — possible internal contradiction (check the wording, not just the model's verdict)"⟩

/-- What the decision of MoIE adds. -/
def decisionFindings : Option Decision → List ReviewFinding
  | none => [⟨.concern, lit "MoIE inversion unavailable — independent review is partial"⟩]
  | some decision =>
    if decision.verdict = block
      then [⟨.blocker, lit "MoIE blocked the change: " ++ decision.metaCritique.take 200⟩]
    else if decision.verdict = lit "CONDITIONAL" then
      if decision.recommendedActions = []
        then [⟨.concern, lit "MoIE: " ++ decision.metaCritique.take 200⟩]
      else (decision.recommendedActions.take 3).map fun action => ⟨.concern, lit "MoIE: " ++ action⟩
    else []

/-- The findings of the review of a build that is ok. -/
def reviewFindings (build : BuildResult) (input : ReviewInput) : List ReviewFinding :=
  (if build.changedFiles = []
    then [⟨.blocker, lit "no files changed — the builder made no modification"⟩] else []) ++
    input.scanned.map scanFinding ++ decisionFindings input.decision ++ input.hits.map fun hit =>
    ⟨.info, hit⟩

/-- The verdict on findings. -/
def findingsVerdict (findings : List ReviewFinding) : Str :=
  if ∃ f ∈ findings, f.severity = .blocker then block
  else if ∃ f ∈ findings, f.severity = .concern then concern
  else approve

/-- `_review_from_decision` -/
def reviewFromDecision (build : BuildResult) (input : ReviewInput) : Review :=
  if build.ok = false then
    let detail := build.error.filter fun e => e ≠ []
    ⟨block, [⟨.blocker, lit "build failed: " ++ detail.getD (lit "no error detail")⟩], [], []⟩
  else
    let findings := reviewFindings build input
    let shown :=
      if findings.isEmpty && !build.changedFiles.isEmpty then
        [⟨.info, lit
          "no blocker or concern surfaced; independent review approves on current evidence"⟩]
      else findings
    ⟨findingsVerdict findings, shown.take 12, (input.decision.map Decision.verdict).getD [],
      ((input.decision.map Decision.reportModels).getD []).filter (· ≠ []) |>.eraseDups⟩

/-! ## The verification -/

/-- The checks that `_check_kind` knows. -/
inductive Kind where
  | testsPass
  | testEvidenceExists
  | reviewNotBlock
  | testFileExists
  | symptom
  | presence
  deriving DecidableEq

/-- `_KNOWN_CHECKS` -/
def knownChecks : List (Str × Kind) :=
  [(lit "tests pass", .testsPass), (lit "test evidence exists", .testEvidenceExists),
    (lit "independent review not BLOCK", .reviewNotBlock),
    (lit "the reported symptom is gone in the worktree", .symptom),
    (lit "the new test exists", .testFileExists), (lit "new tests pass", .testsPass)]

inductive CheckResult where
  | pass
  | fail
  | unverified
  deriving DecidableEq

structure VerificationCheck where
  criterion : Str
  result : CheckResult
  evidence : Str

def exitText (test : TestEvidence) : Str :=
  match test.exitCode with
  | some code => (intLit code).text
  | none => lit "None"

/-- `_check_kind` -/
def checkKind (kind : Kind) (build : BuildResult) (test : TestEvidence)
    (reviewVerdict criterion : Str) : VerificationCheck :=
  match kind with
  | .testsPass =>
    if test.skipped = true then ⟨criterion, .pass, test.skipReason⟩
    else if test.ran = false
      then ⟨criterion, .unverified, lit "no test command found/run — no evidence"⟩
    else if test.passed = true then ⟨criterion, .pass, lit "exit 0: " ++ test.command ++ lit " (" ++
      test.durationS ++ lit "s)"⟩
    else ⟨criterion, .fail, lit "exit " ++ exitText test ++ lit ": " ++ test.command⟩
  | .testEvidenceExists =>
    if test.skipped = true then ⟨criterion, .pass, test.skipReason⟩
    else if test.ran = true
      then ⟨criterion, .pass, test.command ++ lit " ran (exit " ++ exitText test ++ lit ")"⟩
    else ⟨criterion, .unverified, lit "no test evidence produced"⟩
  | .reviewNotBlock =>
    if reviewVerdict = block then ⟨criterion, .fail, lit "independent review blocked the change"⟩
    else ⟨criterion, .pass, lit "independent review: " ++ reviewVerdict⟩
  | .testFileExists =>
    if ∃ f ∈ build.changedFiles, lit "test" <:+: lib.lower f then
      ⟨criterion, .pass, lit "a test file appears in the changed files"⟩
    else ⟨criterion, .fail, lit "no test file among the changed files"⟩
  | .symptom =>
    if test.passed = true then ⟨criterion, .pass, lit "tests pass after the change"⟩
    else ⟨criterion, .unverified, lit "cannot observe the symptom without a domain harness"⟩
  | .presence =>
    if build.changedFiles = [] then ⟨criterion, .fail, lit "no change produced"⟩
    else
      let changed := (intLit build.changedFiles.length).text ++ lit " file(s) changed"
      let evidence := if test.ran = true then changed ++ lit "; " ++ test.command ++ lit " exit " ++
        exitText test else changed
      ⟨criterion, if test.ran = false ∨ test.passed = true then .pass else .fail, evidence⟩

/-- The check that a criterion is classified as: the first one whose key is in the lower-cased text.
-/
def kindOf (criterion : Str) : Kind :=
  ((knownChecks.find? fun known => decide (known.1 <:+: lib.lower criterion)).map Prod.snd).getD
    .presence

/-- `_check_criterion` -/
def checkCriterion (build : BuildResult) (test : TestEvidence) (reviewVerdict criterion : Str) :
    VerificationCheck :=
  checkKind lib (kindOf lib criterion) build test reviewVerdict criterion

structure Verification where
  verdict : CheckResult
  checks : List VerificationCheck

/-- `verify` -/
def verify (plan : Plan) (build : BuildResult) (test : TestEvidence) (reviewVerdict : Str) :
    Verification :=
  let checks := plan.criteria.map (checkCriterion lib build test reviewVerdict)
  let verdict :=
    if ∃ c ∈ checks, c.result = .fail then CheckResult.fail
    else if ∃ c ∈ checks, c.result = .unverified then .unverified
    else if checks = [] then .unverified
    else .pass
  ⟨verdict, checks.take 20⟩

/-! ## The pipeline -/

inductive Verdict where
  | merged
  | needsWork
  | blocked
  | failed
  deriving DecidableEq

structure FactoryRun where
  plan : Plan
  build : Option BuildResult
  test : TestEvidence
  review : Option Review
  verification : Verification
  verdict : Verdict
  error : Option Str

/-- `FactoryRun(issue=issue)` -/
def FactoryRun.start : FactoryRun :=
  ⟨⟨[], []⟩, none, .blank, none, ⟨.unverified, []⟩, .failed, none⟩

/-- What happens around one issue: what the stages answer, the repository, and the worktree after
the build. -/
structure Env where
  classify : Except PyError Str
  plan : Except PyError Plan
  builderModel : Str
  reviewerModels : Option (List Str)
  createWorktree : Except PyError Str
  build : Except PyError BuildResult
  repo : Tree
  worktree : Tree
  diff : Str
  runTests : Except PyError TestRun
  review : Except PyError ReviewInput

variable (env : Env)

def failure (stage : Str) (e : PyError) : Str :=
  stage ++ lit " failed: " ++ lib.className e ++ lit ": " ++ lib.message e

/-- The build of the third stage, with the changes that are computed. -/
def Env.built (build : BuildResult) : BuildResult :=
  if build.ok = true
    then { build with changedFiles := computeChanges env.repo env.worktree, diff := env.diff }
    else build

/-- The fourth stage. -/
def testStage (build : BuildResult) : TestEvidence :=
  if build.ok = false then .blank
  else if isDocsOnlyChange lib build.changedFiles = true then docsOnlySkip
  else
    match env.runTests with
    | .ok run => run.evidence
    | .error e =>
      { TestEvidence.blank with ran := true, outputHead := failure lib (lit "test stage") e }

/-- `test_gate_ok` -/
def TestEvidence.gateOk (test : TestEvidence) : Bool := test.skipped || (test.ran && test.passed)

/-- The seventh stage. -/
def verdictOf (build : BuildResult) (test : TestEvidence) (review : Option Review)
    (verification : Verification) : Verdict :=
  if build.ok = false then .failed
  else
    match review with
    | none => .blocked
    | some reviewed =>
      if reviewed.verdict = block then .blocked
      else if test.gateOk = false then .needsWork
      else if verification.verdict = .fail then .needsWork
      else if verification.verdict = .unverified then .needsWork
      else if reviewed.verdict = concern then .needsWork
      else .merged

/-- The stages from the tests on. -/
def finish (plan : Plan) (build : BuildResult) : FactoryRun :=
  let test := testStage lib env build
  let review := env.review.toOption.map (reviewFromDecision build)
  let error :=
    match env.review with
    | .ok _ => none
    | .error e => some (failure lib (lit "review") e)
  let verification := verify lib plan build test ((review.map Review.verdict).getD block)
  ⟨plan, some build, test, review, verification, verdictOf build test review verification, error⟩

/-- `process_issue` -/
def processIssue : FactoryRun :=
  match env.classify with
  | .error e => { FactoryRun.start with error := some (failure lib (lit "classify") e) }
  | .ok _ =>
    match env.plan with
    | .error e => { FactoryRun.start with error := some (failure lib (lit "plan") e) }
    | .ok plan =>
      if env.builderModel ∈ env.reviewerModels.getD [] then
        { FactoryRun.start with
          plan := plan
          verdict := .blocked
          error := some (lit "builder model " ++ lib.repr env.builderModel ++
            lit " may not also be a reviewer (builder != reviewer invariant)") }
      else
        match env.createWorktree >>= fun _ => env.build with
        | .error e =>
          { FactoryRun.start with plan := plan, error := some (failure lib (lit "build") e) }
        | .ok build => finish lib env plan (env.built build)

end Factory
