import Msb.Factory.Pipeline

/-!
# Is a merge earned?

The comparison of the trees walks the worktree only, so a file that the builder has deleted is not
among the changed ones: a change of a document together with a deletion of code is a change of
documents only, and no test is run. And the criterion `independent review not BLOCK` is looked for
in a lower-cased text.

* `merged_iff` — which issues are merged
* `earned_iff` — when a merge is earned
-/

namespace Factory

open Py

variable (lib : FactoryLib) (env : Env)

/-! ## What is claimed -/

/-- The presence or the content of a file differs. -/
def Differs (path : Str) : Prop :=
  excluded path = false ∧ env.repo.read path ≠ env.worktree.read path

/-- The tests ran and exited with 0. -/
def Tested (run : FactoryRun) : Prop := run.test.ran = true ∧ run.test.exitCode = some 0

/-- Every file that differs is documentation. -/
def AllDocs : Prop := ∀ path, Differs env path → isDocFile lib path = true

/-- The names of the known checks, as they are looked for in a text whatever its case. -/
def namedChecks : List (Str × Kind) :=
  [(lit "tests pass", .testsPass), (lit "test evidence exists", .testEvidenceExists),
    (lit "independent review not block", .reviewNotBlock),
    (lit "the reported symptom is gone in the worktree", .symptom),
    (lit "the new test exists", .testFileExists), (lit "new tests pass", .testsPass)]

/-- A criterion that contains the name of a known check is classified as such a check. -/
def Classified (criterion : Str) : Prop :=
  (∃ known ∈ namedChecks, known.1 <:+: lib.lower criterion) →
    ∃ known ∈ namedChecks, known.1 <:+: lib.lower criterion ∧ kindOf lib criterion = known.2

/-- What has to be observed for a check. Tests need not run for documents. -/
def Observed (run : FactoryRun) : Kind → Prop
  | .testsPass | .testEvidenceExists => Tested run ∨ AllDocs lib env
  | .reviewNotBlock => ∃ review, run.review = some review ∧ review.verdict ≠ block
  | .testFileExists =>
    ∃ build, run.build = some build ∧ ∃ f ∈ build.changedFiles, lit "test" <:+: lib.lower f
  | .symptom => Tested run
  | .presence =>
    (∃ build, run.build = some build ∧ build.changedFiles ≠ []) ∧ (Tested run ∨ AllDocs lib env)

/-- What a merged run has. -/
structure Earned (run : FactoryRun) : Prop where
  built : ∃ build, run.build = some build ∧ build.ok = true ∧ ∀ path, Differs env path →
    path ∈ build.changedFiles
  tested : Tested run ∨ AllDocs lib env
  reviewed : ∃ review, run.review = some review ∧ review.verdict = approve
  accepted : ∀ criterion ∈ run.plan.criteria, Classified lib criterion ∧
    Observed lib env run (kindOf lib criterion) ∧
    ∃ build review, run.build = some build ∧ run.review = some review ∧
      (checkCriterion lib build run.test review.verdict criterion).result = .pass

/-- A file that the comparison leaves out: it was deleted, or it lies where the repository has a
directory. -/
def Missed (path : Str) : Prop :=
  excluded path = false ∧ ((env.repo.read path ≠ none ∧ env.worktree.read path = none) ∨
    (env.worktree.read path ≠ none ∧ env.repo.read path = none ∧ path ∈ env.repo.dirs))

/-- The criterion names the review check, and none of the keys is in it. -/
def Unheard (criterion : Str) : Prop :=
  lit "independent review not block" <:+: lib.lower criterion ∧ ∀ known ∈ knownChecks,
    ¬ known.1 <:+: lib.lower criterion

/-- The criterion is met by the changed files. -/
def Met (changed : List Str) : Kind → Prop
  | .testFileExists => ∃ f ∈ changed, lit "test" <:+: lib.lower f
  | .symptom => isDocsOnlyChange lib changed = false
  | _ => True

/-- The stages go through: what they answer, and what the changed files are like. -/
structure Mergeable (plan : Plan) (build : BuildResult) (input : ReviewInput) : Prop where
  classified : ∃ severity, env.classify = .ok severity
  planned : env.plan = .ok plan
  independent : env.builderModel ∉ env.reviewerModels.getD []
  worktree : ∃ path, env.createWorktree = .ok path
  built : env.build = .ok build
  ok : build.ok = true
  reviewed : env.review = .ok input
  changed : computeChanges env.repo env.worktree ≠ []
  scanned : input.scanned = []
  approved : ∃ decision, input.decision = some decision ∧ decision.verdict ≠ block ∧
    decision.verdict ≠ lit "CONDITIONAL"
  gate : isDocsOnlyChange lib (computeChanges env.repo env.worktree) = true ∨
    ∃ command output durationS, env.runTests = .ok (.exited command 0 output durationS)
  criteria : plan.criteria ≠ []
  met : ∀ criterion ∈ plan.criteria, Met lib (computeChanges env.repo env.worktree)
    (kindOf lib criterion)

variable {lib env}

/-! ## The comparison of the trees -/

theorem read_isSome {tree : Tree} {path : Str} :
    tree.read path ≠ none ↔ path ∈ tree.files.map Prod.fst := by
  unfold Tree.read
  rw [Ne, Option.map_eq_none_iff, Keyed.find_eq_none]
  simp

theorem mem_computeChanges {repo worktree : Tree} {path : Str} :
    path ∈ computeChanges repo worktree ↔
    worktree.read path ≠ none ∧ repo.read path ≠ worktree.read path ∧
    (repo.read path = none → path ∉ repo.dirs) := by
  unfold computeChanges Tree.sortedPaths
  rw [List.mem_filter, List.mem_insertionSort, ← read_isSome]
  refine and_congr_right fun hnew => ?_
  obtain ⟨new, hnew⟩ := Option.ne_none_iff_exists'.mp hnew
  rcases Option.eq_none_or_eq_some (repo.read path) with hold | ⟨old, hold⟩
  · simp [Tree.Exists, hold, hnew]
  · simp only [Tree.Exists, hold, hnew, Option.isSome_some, true_or, not_true_eq_false, if_false,
      decide_eq_true_eq, ne_eq, Option.some.injEq, reduceCtorEq, false_implies, and_true]
    exact ne_comm

/-- **What the comparison leaves out.** -/
theorem missed_iff {path : Str} :
    Missed env path ↔ Differs env path ∧ path ∉ computeChanges env.repo env.worktree := by
  unfold Missed Differs
  rw [mem_computeChanges]
  cases env.repo.read path with
  | none => cases env.worktree.read path <;> simp
  | some old => cases env.worktree.read path <;> simp

/-! ## The classification of a criterion -/

/-- The key with capital letters is in no lower-cased text. -/
theorem review_key_unheard (s : Str) : ¬ lit "independent review not BLOCK" <:+: lib.lower s := by
  intro h
  have hmem : (66 : CodePoint) ∈ lib.lower s := h.subset (by decide +kernel)
  exact lib.lower_ascii s 66 hmem (by decide)

theorem classified_iff {criterion : Str} : Classified lib criterion ↔ ¬ Unheard lib criterion := by
  -- the two tables are the same but for the review check
  have htables : ∀ known ∈ knownChecks, known ∈ namedChecks ∨
    known.1 = lit "independent review not BLOCK" := by decide +kernel
  have hnames : ∀ known ∈ namedChecks, known ∈ knownChecks ∨
      known = (lit "independent review not block", Kind.reviewNotBlock) := by
    decide +kernel
  have hkinds : ∀ known ∈ namedChecks, known.2 ≠ Kind.presence := by decide +kernel
  have hreview : (lit "independent review not block", Kind.reviewNotBlock) ∈ namedChecks := by
    decide +kernel
  unfold Classified Unheard kindOf
  cases hfind : knownChecks.find? fun known => decide (known.1 <:+: lib.lower criterion) with
  | some known =>
    have hmem := List.mem_of_find?_eq_some hfind
    have hin : known.1 <:+: lib.lower criterion := by simpa using List.find?_some hfind
    refine iff_of_true (fun _ => ⟨known, ?_, hin, rfl⟩) fun h => h.2 known hmem hin
    refine (htables known hmem).resolve_right fun hkey => ?_
    rw [hkey] at hin
    exact review_key_unheard criterion hin
  | none =>
    have hnone : ∀ known ∈ knownChecks, ¬ known.1 <:+: lib.lower criterion := by
      simpa using List.find?_eq_none.mp hfind
    constructor
    · rintro h ⟨hin, -⟩
      obtain ⟨known, hknown, -, hkind⟩ := h ⟨_, hreview, hin⟩
      exact hkinds known hknown hkind.symm
    · rintro h ⟨known, hknown, hin⟩
      rcases hnames known hknown with hknown | rfl
      · exact absurd hin (hnone known hknown)
      · exact absurd ⟨hin, hnone⟩ h

/-! ## The stages -/

theorem verdicts_ne : approve ≠ block ∧ approve ≠ concern ∧ block ≠ concern := by decide +kernel

section

variable {plan : Plan} {build : BuildResult} {input : ReviewInput} {test : TestEvidence}

theorem findingsVerdict_cases (findings : List ReviewFinding) :
    findingsVerdict findings = block ∨ findingsVerdict findings = concern ∨
    findingsVerdict findings = approve := by
  unfold findingsVerdict
  split_ifs
  · exact Or.inl rfl
  · exact Or.inr (Or.inl rfl)
  · exact Or.inr (Or.inr rfl)

theorem findingsVerdict_approve {findings : List ReviewFinding} :
    findingsVerdict findings = approve ↔
    ∀ f ∈ findings, f.severity ≠ .blocker ∧ f.severity ≠ .concern := by
  obtain ⟨happroveBlock, happroveConcern, -⟩ := verdicts_ne
  unfold findingsVerdict
  split_ifs with hblocker hconcern
  · obtain ⟨f, hf, hs⟩ := hblocker
    exact iff_of_false happroveBlock.symm fun h => (h f hf).1 hs
  · obtain ⟨f, hf, hs⟩ := hconcern
    exact iff_of_false happroveConcern.symm fun h => (h f hf).2 hs
  · exact iff_of_true rfl fun f hf =>
      ⟨fun hs => hblocker ⟨f, hf, hs⟩, fun hs => hconcern ⟨f, hf, hs⟩⟩

/-- A review has one of three verdicts. -/
theorem review_cases : (reviewFromDecision build input).verdict = block ∨
    (reviewFromDecision build input).verdict = concern ∨
    (reviewFromDecision build input).verdict = approve := by
  unfold reviewFromDecision
  split
  · exact Or.inl rfl
  · exact findingsVerdict_cases _

/-- When MoIE adds no finding. -/
theorem decisionFindings_eq_nil {decision : Option Decision} :
    (∀ f ∈ decisionFindings decision, f.severity ≠ .blocker ∧ f.severity ≠ .concern) ↔
      ∃ d, decision = some d ∧ d.verdict ≠ block ∧ d.verdict ≠ lit "CONDITIONAL" := by
  cases decision with
  | none =>
    refine iff_of_false (fun h => ?_) (by simp)
    exact (h _ List.mem_cons_self).2 rfl
  | some d =>
    unfold decisionFindings
    dsimp only
    split_ifs with hblock hconditional hactions
    · refine iff_of_false (fun h => (h _ List.mem_cons_self).1 rfl) ?_
      rintro ⟨d', hd, hne, -⟩
      obtain rfl := Option.some.inj hd
      exact hne hblock
    · refine iff_of_false (fun h => (h _ List.mem_cons_self).2 rfl) ?_
      rintro ⟨d', hd, -, hne⟩
      obtain rfl := Option.some.inj hd
      exact hne hconditional
    · obtain ⟨action, rest, hcons⟩ := List.exists_cons_of_ne_nil hactions
      refine iff_of_false (fun h => ?_) ?_
      · rw [hcons] at h
        exact (h _ List.mem_cons_self).2 rfl
      · rintro ⟨d', hd, -, hne⟩
        obtain rfl := Option.some.inj hd
        exact hne hconditional
    · refine iff_of_true (fun f hf => absurd hf List.not_mem_nil) ⟨d, rfl, hblock, hconditional⟩

/-- **When the review approves.** -/
theorem review_approve (hok : build.ok = true) :
    (reviewFromDecision build input).verdict = approve ↔
    build.changedFiles ≠ [] ∧ input.scanned = [] ∧
      ∃ d, input.decision = some d ∧ d.verdict ≠ block ∧ d.verdict ≠ lit "CONDITIONAL" := by
  rw [← decisionFindings_eq_nil]
  unfold reviewFromDecision
  rw [if_neg (by simp [hok])]
  show findingsVerdict (reviewFindings build input) = approve ↔ _
  rw [findingsVerdict_approve]
  unfold reviewFindings
  -- the severities of the findings, part by part
  constructor
  · intro h
    refine ⟨fun hnil => ?_, ?_, fun f hf => h f (by simp [hf])⟩
    · rw [if_pos hnil] at h
      exact (h _ (by simp; exact Or.inl rfl)).1 rfl
    · by_contra hne
      obtain ⟨verb, rest, hcons⟩ := List.exists_cons_of_ne_nil hne
      exact (h (scanFinding verb) (by simp [hcons])).2 rfl
  · rintro ⟨hchanged, hscanned, hdecision⟩ f hf
    rw [if_neg hchanged, hscanned, List.map_nil, List.nil_append, List.nil_append] at hf
    rcases List.mem_append.mp hf with hf | hf
    · exact hdecision f hf
    · obtain ⟨hit, -, rfl⟩ := List.mem_map.mp hf
      exact ⟨by simp, by simp⟩

/-- When the test gate is ok. -/
theorem gateOk_iff (hok : build.ok = true) : (testStage lib env build).gateOk = true ↔
    isDocsOnlyChange lib build.changedFiles = true ∨
      ∃ command output durationS, env.runTests = .ok (.exited command 0 output durationS) := by
  unfold testStage
  rw [if_neg (by simp [hok])]
  by_cases hdocs : isDocsOnlyChange lib build.changedFiles = true
  · rw [if_pos hdocs]
    exact iff_of_true rfl (Or.inl hdocs)
  · rw [if_neg hdocs, or_iff_right hdocs]
    cases hrun : env.runTests with
    | error e => exact iff_of_false (by simp [TestEvidence.gateOk, TestEvidence.blank]) (by simp)
    | ok run =>
      cases run with
      | noCommand =>
        exact iff_of_false (by simp [TestRun.evidence, TestEvidence.gateOk, TestEvidence.blank])
          (by simp)
      | timedOut command =>
        exact iff_of_false (by simp [TestRun.evidence, TestEvidence.gateOk, TestEvidence.blank])
          (by simp)
      | exited command code output durationS =>
        simp only [TestRun.evidence, TestEvidence.gateOk, Bool.false_or, Bool.true_and,
          decide_eq_true_eq, Except.ok.injEq, TestRun.exited.injEq]
        exact ⟨fun h => ⟨_, _, _, rfl, h, rfl, rfl⟩, fun ⟨_, _, _, _, h, _, _⟩ => h⟩

/-- When the verification passes. -/
theorem verify_pass {reviewVerdict : Str} :
    (verify lib plan build test reviewVerdict).verdict = .pass ↔
    plan.criteria ≠ [] ∧ ∀ criterion ∈ plan.criteria,
    (checkCriterion lib build test reviewVerdict criterion).result = .pass := by
  unfold verify
  dsimp only
  simp only [List.mem_map, exists_exists_and_eq_and, List.map_eq_nil_iff]
  split_ifs with hfail hunverified hnil
  · refine iff_of_false (by simp) ?_
    rintro ⟨-, hall⟩
    obtain ⟨c, hc, hresult⟩ := hfail
    rw [hall c hc] at hresult
    cases hresult
  · refine iff_of_false (by simp) ?_
    rintro ⟨-, hall⟩
    obtain ⟨c, hc, hresult⟩ := hunverified
    rw [hall c hc] at hresult
    cases hresult
  · exact iff_of_false (by simp) fun h => h.1 hnil
  · refine iff_of_true rfl ⟨hnil, fun c hc => ?_⟩
    cases hresult : (checkCriterion lib build test reviewVerdict c).result with
    | pass => rfl
    | fail => exact absurd ⟨c, hc, hresult⟩ hfail
    | unverified => exact absurd ⟨c, hc, hresult⟩ hunverified

/-- **When a check passes**, where the gate is ok and the review approves. -/
theorem check_pass_iff (hok : build.ok = true) (hchanged : build.changedFiles ≠ [])
    (hgate : (testStage lib env build).gateOk = true) (kind : Kind) (criterion : Str) :
    (checkKind lib kind build (testStage lib env build) approve criterion).result = .pass ↔
        Met lib build.changedFiles kind := by
  -- the evidence of the gate is the skip of documents, or a run that has passed
  have htest : (isDocsOnlyChange lib build.changedFiles = true ∧
    testStage lib env build = docsOnlySkip) ∨
      (isDocsOnlyChange lib build.changedFiles = false ∧ (testStage lib env build).skipped = false ∧
        (testStage lib env build).ran = true ∧ (testStage lib env build).passed = true) := by
    by_cases hdocs : isDocsOnlyChange lib build.changedFiles = true
    · refine Or.inl ⟨hdocs, ?_⟩
      unfold testStage
      rw [if_neg (by simp [hok]), if_pos hdocs]
    · obtain ⟨command, output, durationS, hrun⟩ := ((gateOk_iff hok).mp hgate).resolve_left hdocs
      have hstage : testStage lib env build =
          (TestRun.exited command 0 output durationS).evidence := by
        unfold testStage
        rw [if_neg (by simp [hok]), if_neg hdocs, hrun]
      refine Or.inr ⟨by simpa using hdocs, ?_⟩
      rw [hstage]
      exact ⟨rfl, rfl, rfl⟩
  unfold checkKind Met
  rcases htest with ⟨hdocs, hstage⟩ | ⟨hdocs, hskipped, hran, hpassed⟩
  · rw [hstage]
    cases kind <;> simp [docsOnlySkip, TestEvidence.blank, hdocs, hchanged, verdicts_ne.1]
    split_ifs <;> simp_all
  · cases kind <;> simp [hskipped, hran, hpassed, hdocs, hchanged, verdicts_ne.1]
    split_ifs <;> simp_all

end

/-! ## The run -/

section

variable {plan : Plan} {build : BuildResult} {input : ReviewInput}

variable (env) in
theorem built_eq (hok : build.ok = true) : (env.built build).ok = true ∧
    (env.built build).changedFiles = computeChanges env.repo env.worktree := by
  unfold Env.built
  rw [if_pos hok]
  exact ⟨hok, rfl⟩

/-- A run that goes through reaches the last stages. -/
theorem processIssue_eq (hclassify : ∃ severity, env.classify = .ok severity)
    (hplan : env.plan = .ok plan)
    (hindependent : env.builderModel ∉ env.reviewerModels.getD [])
    (hworktree : ∃ path, env.createWorktree = .ok path)
    (hbuild : env.build = .ok build) :
    processIssue lib env = finish lib env plan (env.built build) := by
  obtain ⟨severity, hseverity⟩ := hclassify
  obtain ⟨path, hpath⟩ := hworktree
  unfold processIssue
  rw [hseverity, hplan]
  dsimp only
  rw [if_neg hindependent, hpath, hbuild]
  rfl

/-- Only a run that goes through is merged. -/
theorem reached_of_merged (h : (processIssue lib env).verdict = .merged) : ∃ plan build,
    (∃ severity, env.classify = .ok severity) ∧ env.plan = .ok plan ∧
    env.builderModel ∉ env.reviewerModels.getD [] ∧
      (∃ path, env.createWorktree = .ok path) ∧ env.build = .ok build := by
  unfold processIssue at h
  cases hclassify : env.classify with
  | error e =>
    rw [hclassify] at h
    cases h
  | ok severity =>
    rw [hclassify] at h
    cases hplan : env.plan with
    | error e =>
      rw [hplan] at h
      cases h
    | ok plan =>
      rw [hplan] at h
      dsimp only at h
      split at h
      · cases h
      · next hindependent =>
        cases hbuild : env.createWorktree >>= fun _ => env.build with
        | error e =>
          rw [hbuild] at h
          cases h
        | ok build =>
          obtain ⟨path, hpath, hbuild⟩ := bind_eq_ok.mp hbuild
          exact ⟨plan, build, ⟨severity, rfl⟩, rfl, hindependent, ⟨path, hpath⟩, hbuild⟩

/-- When the last stages merge. -/
theorem verdictOf_merged {test : TestEvidence} {review : Option Review}
    {verification : Verification} :
    verdictOf build test review verification = .merged ↔ build.ok = true ∧ test.gateOk = true ∧
    verification.verdict = .pass ∧
      ∃ r, review = some r ∧ r.verdict ≠ block ∧ r.verdict ≠ concern := by
  unfold verdictOf
  cases review with
  | none => split <;> simp
  | some r =>
    dsimp only
    have hcases : verification.verdict = .pass ↔ verification.verdict ≠ .fail ∧
        verification.verdict ≠ .unverified := by
      cases verification.verdict <;> simp
    rw [hcases]
    split_ifs with h1 h2 h3 h4 h5 h6 <;> simp_all

/-- The build is ok and the last stages merge. -/
theorem finish_merged (hok : build.ok = true) :
    (finish lib env plan (env.built build)).verdict = .merged ↔
    ∃ input, env.review = .ok input ∧
    (reviewFromDecision (env.built build) input).verdict = approve ∧
      (testStage lib env (env.built build)).gateOk = true ∧ plan.criteria ≠ [] ∧
      ∀ criterion ∈ plan.criteria, Met lib (computeChanges env.repo env.worktree)
          (kindOf lib criterion) := by
  obtain ⟨happroveBlock, happroveConcern, -⟩ := verdicts_ne
  obtain ⟨hbuiltOk, hbuiltChanged⟩ := built_eq env hok
  show verdictOf _ _ _ _ = .merged ↔ _
  rw [verdictOf_merged]
  cases hreview : env.review with
  | error e => simp [Except.toOption]
  | ok input =>
    simp only [Except.toOption, Option.map_some, Option.getD_some, Option.some.injEq,
      exists_eq_left', Except.ok.injEq]
    constructor
    · rintro ⟨-, hgate, hverify, hblock, hconcern⟩
      have happrove : (reviewFromDecision (env.built build) input).verdict = approve :=
        (review_cases.resolve_left hblock).resolve_left hconcern
      rw [happrove] at hverify
      obtain ⟨hcriteria, hpass⟩ := verify_pass.mp hverify
      refine ⟨happrove, hgate, hcriteria, fun criterion hc => ?_⟩
      have hchanged := ((review_approve hbuiltOk).mp happrove).1
      rw [← hbuiltChanged]
      exact (check_pass_iff hbuiltOk hchanged hgate _ criterion).mp (hpass criterion hc)
    · rintro ⟨happrove, hgate, hcriteria, hmet⟩
      refine ⟨hbuiltOk, hgate,
        ?_, by rw [happrove]; exact happroveBlock, by rw [happrove]; exact happroveConcern⟩
      have hchanged := ((review_approve hbuiltOk).mp happrove).1
      rw [happrove, verify_pass]
      refine ⟨hcriteria, fun criterion hc =>
        (check_pass_iff hbuiltOk hchanged hgate _ criterion).mpr ?_⟩
      rw [hbuiltChanged]
      exact hmet criterion hc

/-- **Which issues are merged.** -/
theorem merged_iff : (processIssue lib env).verdict = .merged ↔ ∃ plan build input,
    Mergeable lib env plan build input := by
  constructor
  · intro h
    obtain ⟨plan, build, hclassify, hplan, hindependent, hworktree, hbuild⟩ := reached_of_merged h
    rw [processIssue_eq hclassify hplan hindependent hworktree hbuild] at h
    have hok : build.ok = true := by
      by_contra hnot
      have hbuilt : (env.built build).ok = true := (verdictOf_merged.mp h).1
      unfold Env.built at hbuilt
      rw [if_neg hnot] at hbuilt
      exact hnot hbuilt
    obtain ⟨hbuiltOk, hbuiltChanged⟩ := built_eq env hok
    obtain ⟨input, hreview, happrove, hgate, hcriteria, hmet⟩ := (finish_merged hok).mp h
    rw [review_approve hbuiltOk, hbuiltChanged] at happrove
    rw [gateOk_iff hbuiltOk, hbuiltChanged] at hgate
    exact ⟨plan, build, input, hclassify, hplan, hindependent, hworktree, hbuild, hok, hreview,
      happrove.1, happrove.2.1, happrove.2.2, hgate, hcriteria, hmet⟩
  · rintro ⟨plan, build, input, h⟩
    obtain ⟨hbuiltOk, hbuiltChanged⟩ := built_eq env h.ok
    rw [processIssue_eq h.classified h.planned h.independent h.worktree h.built]
    refine (finish_merged h.ok).mpr ⟨input, h.reviewed, ?_, ?_, h.criteria, h.met⟩
    · rw [review_approve hbuiltOk, hbuiltChanged]
      exact ⟨h.changed, h.scanned, h.approved⟩
    · rw [gateOk_iff hbuiltOk, hbuiltChanged]
      exact h.gate

/-- The tests of a run that is merged. -/
theorem Mergeable.tested (h : Mergeable lib env plan build input) :
    isDocsOnlyChange lib (computeChanges env.repo env.worktree) = true ∨
      (finish lib env plan (env.built build)).test.ran = true ∧
      (finish lib env plan (env.built build)).test.exitCode = some 0 := by
  by_cases hdocs : isDocsOnlyChange lib (computeChanges env.repo env.worktree) = true
  · exact Or.inl hdocs
  · obtain ⟨hbuiltOk, hbuiltChanged⟩ := built_eq env h.ok
    obtain ⟨command, output, durationS, hrun⟩ := h.gate.resolve_left hdocs
    refine Or.inr ?_
    show (testStage lib env (env.built build)).ran = true ∧
      (testStage lib env (env.built build)).exitCode = some 0
    unfold testStage
    rw [if_neg (by simp [hbuiltOk]), hbuiltChanged, if_neg hdocs, hrun]
    exact ⟨rfl, rfl⟩

/-- A merge is earned where nothing is missed and every criterion is heard. -/
theorem Mergeable.earned (h : Mergeable lib env plan build input)
    (hmissed : ∀ path, ¬ Missed env path)
    (hheard : ∀ criterion ∈ plan.criteria, ¬ Unheard lib criterion) :
    Earned lib env (finish lib env plan (env.built build)) := by
  obtain ⟨hbuiltOk, hbuiltChanged⟩ := built_eq env h.ok
  -- nothing is missed, so what differs is listed
  have hlisted : ∀ path, Differs env path → path ∈ computeChanges env.repo env.worktree := by
    intro path hdiffers
    by_contra hnot
    exact hmissed path (missed_iff.mpr ⟨hdiffers, hnot⟩)
  have htested : Tested (finish lib env plan (env.built build)) ∨ AllDocs lib env := by
    rcases h.tested with hdocs | hran
    · refine Or.inr fun path hdiffers => ?_
      exact List.all_eq_true.mp hdocs path (hlisted path hdiffers)
    · exact Or.inl hran
  have happrove : (reviewFromDecision (env.built build) input).verdict = approve := by
    rw [review_approve hbuiltOk, hbuiltChanged]
    exact ⟨h.changed, h.scanned, h.approved⟩
  have hreview : (finish lib env plan (env.built build)).review =
      some (reviewFromDecision (env.built build) input) := by
    show env.review.toOption.map _ = _
    rw [h.reviewed]
    rfl
  have hgate : (testStage lib env (env.built build)).gateOk = true := by
    rw [gateOk_iff hbuiltOk, hbuiltChanged]
    exact h.gate
  refine ⟨⟨_, rfl, hbuiltOk, ?_⟩, htested, ⟨_, hreview, happrove⟩, ?_⟩
  · rw [hbuiltChanged]
    exact hlisted
  · intro criterion hc
    have hmet := h.met criterion hc
    refine ⟨classified_iff.mpr (hheard criterion hc), ?_, _, _, rfl, hreview, ?_⟩
    · cases hkind : kindOf lib criterion with
      | testsPass => exact htested
      | testEvidenceExists => exact htested
      | reviewNotBlock => exact ⟨_, hreview, happrove ▸ verdicts_ne.1⟩
      | testFileExists =>
        rw [hkind] at hmet
        refine ⟨_, rfl, ?_⟩
        rw [hbuiltChanged]
        exact hmet
      | symptom =>
        rw [hkind] at hmet
        have hnot : ¬ isDocsOnlyChange lib (computeChanges env.repo env.worktree) = true := by
          rw [show isDocsOnlyChange lib (computeChanges env.repo env.worktree) = false from hmet]
          exact Bool.false_ne_true
        exact h.tested.resolve_left hnot
      | presence =>
        refine ⟨⟨_, rfl, ?_⟩, htested⟩
        rw [hbuiltChanged]
        exact h.changed
    · rw [happrove]
      refine (check_pass_iff hbuiltOk ?_ hgate _ criterion).mpr ?_
      · rw [hbuiltChanged]
        exact h.changed
      · rw [hbuiltChanged]
        exact hmet

end

/-- **When a merge is earned**: an issue whose stages go through leaves no file of the repository
out of the worktree, puts none where the repository has a directory, and has no criterion that names
the review check only. -/
theorem earned_iff (lib : FactoryLib) (env : Env) :
    ((processIssue lib env).verdict = .merged → Earned lib env (processIssue lib env)) ↔
      ∀ plan build input, Mergeable lib env plan build input →
        (∀ path, ¬ Missed env path) ∧ ∀ criterion ∈ plan.criteria, ¬ Unheard lib criterion := by
  constructor
  · intro h plan build input hmergeable
    have hearned := h (merged_iff.mpr ⟨plan, build, input, hmergeable⟩)
    rw [processIssue_eq hmergeable.classified hmergeable.planned hmergeable.independent
      hmergeable.worktree hmergeable.built] at hearned
    constructor
    · intro path hmissed
      obtain ⟨hdiffers, hnot⟩ := missed_iff.mp hmissed
      obtain ⟨built, hbuilt, -, hlisted⟩ := hearned.built
      obtain rfl := Option.some.inj hbuilt
      have hin := hlisted path hdiffers
      rw [(built_eq env hmergeable.ok).2] at hin
      exact hnot hin
    · intro criterion hc
      exact classified_iff.mp (hearned.accepted criterion hc).1
  · intro h hmerged
    obtain ⟨plan, build, input, hmergeable⟩ := merged_iff.mp hmerged
    obtain ⟨hmissed, hheard⟩ := h plan build input hmergeable
    rw [processIssue_eq hmergeable.classified hmergeable.planned hmergeable.independent
      hmergeable.worktree hmergeable.built]
    exact hmergeable.earned hmissed hheard

/-! ## A document is changed and code is deleted -/

/-- A language whose texts have no capital letters. -/
def lowercased : FactoryLib where
  lower s := s.map fun c => if 65 ≤ c.val ∧ c.val ≤ 90 then c + 32 else c
  lower_ascii := by
    intro s c hc
    obtain ⟨d, -, rfl⟩ := List.mem_map.mp hc
    split
    · next hcapital =>
      have hval : ((d + 32 : CodePoint)).val = d.val + 32 := by
        rw [Fin.val_add]
        exact Nat.mod_eq_of_lt (by have := hcapital.2; show d.val + 32 < 0x110000; omega)
      omega
    · next hsmall => exact hsmall
  className _ := []
  message _ := []
  repr s := s

/-- A module and a read-me. -/
def before : Tree := ⟨[(lit "a.py", [1]), (lit "readme.md", [1])], [], by
  unfold Keyed.Unique
  decide +kernel⟩

/-- The module is gone, and the read-me is another one. -/
def after : Tree := ⟨[(lit "readme.md", [2])], [], by
  unfold Keyed.Unique
  decide +kernel⟩

/-- All stages go through. There is a test command that fails. -/
def deleting : Env where
  classify := .ok (lit "low")
  plan := .ok ⟨lit "tidy up", [⟨lit "s1", [], [], [lit "tests pass"]⟩]⟩
  builderModel := lit "patch"
  reviewerModels := none
  createWorktree := .ok (lit "/tmp/w")
  build := .ok ⟨true, [], [], [], none, lit "patch"⟩
  repo := before
  worktree := after
  diff := []
  runTests := .ok (.exited (lit "make test") 1 [] (lit "0.1"))
  review := .ok ⟨some ⟨lit "APPROVE", [], [], []⟩, [], []⟩

/-- The run is merged; the deleted module is not among the changed files, and no test has run. -/
theorem not_earned : (processIssue lowercased deleting).verdict = .merged ∧
    ¬ Earned lowercased deleting (processIssue lowercased deleting) ∧
    (processIssue lowercased deleting).test.ran = false := by
  refine ⟨by decide +kernel, ?_, by decide +kernel⟩
  intro h
  obtain ⟨build, hbuild, -, hlisted⟩ := h.built
  have hchanged : (processIssue lowercased deleting).build.map BuildResult.changedFiles =
    some [lit "readme.md"] := by decide +kernel
  rw [hbuild, Option.map_some, Option.some.injEq] at hchanged
  have hin := hlisted (lit "a.py") ⟨by decide +kernel, by decide +kernel⟩
  rw [hchanged] at hin
  exact absurd hin (by decide +kernel)

end Factory
