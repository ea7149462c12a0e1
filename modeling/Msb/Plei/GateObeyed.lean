import Msb.Plei.Bridge

/-!
# Does the plan obey the gate?

The bridge looks for an attribute `verdict` of the gate's answer. A `GateVerdict` has none, so the
text of the whole answer is compared with `BLOCK` and `REVIEW`, and it is neither. MoIE approves
with `APPROVE`, and the bridge counts `OK` and `PASS`. And the gate is asked about one capability of
a step.

* `obeys_iff` — when the execution of a plan obeys the gate
-/

namespace Plei

open Py

/-! ## What is claimed -/

/-- The gate answers `BLOCK`, or raises. -/
def Blocks : Except PyError GateVerdict → Prop
  | .ok verdict => verdict.action = lit "BLOCK"
  | .error _ => True

/-- The gate answers `REVIEW`. -/
def Reviews : Except PyError GateVerdict → Prop
  | .ok verdict => verdict.action = lit "REVIEW"
  | .error _ => False

instance : DecidablePred Blocks
  | .ok _ => inferInstanceAs (Decidable (_ = _))
  | .error _ => isTrue trivial

instance : DecidablePred Reviews
  | .ok _ => inferInstanceAs (Decidable (_ = _))
  | .error _ => isFalse not_false

def StepTrace.Blocked (t : StepTrace) : Prop := ∃ p ∈ t.asked, Blocks p.2

def StepTrace.Review (t : StepTrace) : Prop := ¬ t.Blocked ∧ ∃ p ∈ t.asked, Reviews p.2

instance (t : StepTrace) : Decidable t.Blocked :=
  inferInstanceAs (Decidable (∃ p ∈ t.asked, Blocks p.2))

instance (t : StepTrace) : Decidable t.Review :=
  inferInstanceAs (Decidable (_ ∧ ∃ p ∈ t.asked, Reviews p.2))

/-- MoIE has approved the claim. -/
def approves : Except PyError MoIEVerdict → Bool
  | .ok verdict => decide (verdict = .approve)
  | .error _ => false

/-- The report against what has happened. -/
structure Obeys (report : ExecutionReport) (trace : List StepTrace) : Prop where
  consulted : ∀ t ∈ trace, t.ran ≠ [] →
    (∀ c ∈ t.step.capabilitiesRequired, c ∈ t.asked.map Prod.fst) ∧ ¬ t.Blocked
  halted : ∀ before t after, trace = before ++ t :: after → t.Blocked →
    after = [] ∧ report.blockedSteps = 1 ∧ report.ok = false
  reviewed : report.reviewSteps = trace.countP fun t => t.Review
  named : ∀ t ∈ trace, t.Review → t.step.stepId <:+: report.reviewSummary
  results : report.stepResults.map StepResult.stepId = trace.map fun t => t.step.stepId
  recorded : ∀ t ∈ trace, t.records.length = 1
  verified : List.Forall₂ (fun r t => r.claimsVerified = t.analyzed.countP approves)
    report.stepResults trace

/-- Some provider of the step is registered and available. -/
def Runnable (w : Wiring) (step : WorkPlanStep) (env : StepEnv) : Prop :=
  ∃ k providerId, step.providerIds[k]? = some providerId ∧ Runs w env k providerId

/-- The gate answers neither `BLOCK` nor `REVIEW` on the capability that it is asked about, which is
the only one of a step that can run; the spine records the step, and MoIE approves no claim of it.
-/
structure Heard (T : Texts) (w : Wiring) (step : WorkPlanStep) (env : StepEnv) : Prop where
  answered : ∃ verdict, env.gate (step.ask w) = .ok verdict ∧ verdict.action ≠ lit "BLOCK" ∧
    verdict.action ≠ lit "REVIEW"
  single : Runnable w step env → ∀ c ∈ step.capabilitiesRequired, c = step.capability
  recorded : w.evidenceSpine = true ∧ ∃ decisionId,
    env.append (evidenceOf step (runProviders T w step env)) = .ok decisionId
  unapproved : w.moie = true → ∀ k < step.verificationClaims.length, env.analyze k ≠ .ok .approve

/-! ## One step -/

variable {T : Texts} {w : Wiring} {step : WorkPlanStep} {env : StepEnv}

/-- The text of a verdict is none of the words it is compared with. -/
theorem str_ne (verdict : GateVerdict) :
    verdict.str T ≠ lit "BLOCK" ∧ verdict.str T ≠ lit "REVIEW" := by
  have hhead : (verdict.str T).head? = some 71 := rfl
  constructor
  · intro h
    rw [h] at hhead
    exact absurd hhead (by decide +kernel)
  · intro h
    rw [h] at hhead
    exact absurd hhead (by decide +kernel)

theorem gateStep_ne_review : (gateStep T w step env).1 ≠ lit "REVIEW" := by
  unfold gateStep
  split
  · decide +kernel
  · split
    · exact (str_ne _).2
    · show lit "BLOCK" ≠ lit "REVIEW"
      decide +kernel

/-- A step is halted where the gate raises. -/
theorem gateStep_eq_block (hgate : w.gate = true) :
    (gateStep T w step env).1 = lit "BLOCK" ↔ ∃ e, env.gate (step.ask w) = .error e := by
  unfold gateStep
  rw [if_neg (by simp [hgate])]
  cases env.gate (step.ask w) with
  | ok verdict => exact iff_of_false (str_ne verdict).1 (by simp)
  | error e => exact iff_of_true rfl ⟨e, rfl⟩

/-- None of MoIE's verdicts is counted. -/
theorem passes_eq_false (answer : Except PyError MoIEVerdict) : passes answer = false := by
  cases answer with
  | error e => rfl
  | ok verdict => cases verdict <;> decide +kernel

theorem claimsVerified_eq : (verifyClaims w step env).1 = 0 := by
  unfold verifyClaims
  dsimp only
  split
  · rfl
  · split
    · rfl
    · show List.countP passes _ = 0
      rw [List.countP_eq_zero]
      intro answer _
      simp [passes_eq_false]

/-- A provider is run where one of the chain is registered and available. -/
theorem tryProviders_ran : ∀ (last : Outcome) (k : Nat) (ids : List Str),
    (tryProviders T w env last k ids).ran ≠ [] ↔ ∃ j providerId, ids[j]? = some providerId ∧
    Runs w env (k + j) providerId
  | last, k, [] => by simp [tryProviders]
  | last, k, providerId :: rest => by
    have hsplit : (∃ j p, (providerId :: rest)[j]? = some p ∧ Runs w env (k + j) p) ↔
        Runs w env k providerId ∨ ∃ j p, rest[j]? = some p ∧ Runs w env (k + 1 + j) p := by
      constructor
      · rintro ⟨j, p, hj, hruns⟩
        cases j with
        | zero =>
          obtain rfl := Option.some.inj hj
          exact Or.inl hruns
        | succ j =>
          refine Or.inr ⟨j, p, hj, ?_⟩
          rwa [show k + 1 + j = k + (j + 1) by omega]
      · rintro (hruns | ⟨j, p, hj, hruns⟩)
        · exact ⟨0, providerId, rfl, hruns⟩
        · refine ⟨j + 1, p, hj, ?_⟩
          rwa [show k + (j + 1) = k + 1 + j by omega]
    rw [hsplit]
    unfold tryProviders
    by_cases hruns : Runs w env k providerId
    · simp only [hruns, if_true, true_or, iff_true]
      split <;> simp
    · -- a provider that does not run does not succeed, so the chain goes on
      have hfailed : (executeWithProvider T w env k providerId).ok = false := by
        unfold executeWithProvider
        split
        · rfl
        · next hmem =>
          have hreason : env.unavailable k ≠ none := fun hnone => hruns ⟨not_not.mp hmem, hnone⟩
          cases hunavailable : env.unavailable k with
          | none => exact absurd hunavailable hreason
          | some reason => rfl
      simp only [hruns, hfailed, Bool.false_eq_true, if_false, List.nil_append, false_or]
      exact tryProviders_ran _ (k + 1) rest

theorem ran_iff : (runProviders T w step env).ran ≠ [] ↔ Runnable w step env := by
  unfold runProviders
  split
  · next hnil =>
    refine iff_of_false (fun h => h rfl) ?_
    rintro ⟨k, providerId, -, hmem, -⟩
    rw [hnil] at hmem
    exact absurd hmem List.not_mem_nil
  · rw [tryProviders_ran]
    simp only [Nat.zero_add, Runnable]

/-- What is left of a step that is executed. -/
def entryOf (T : Texts) (w : Wiring) (step : WorkPlanStep) (env : StepEnv) : StepTrace :=
  ⟨step, askedAt w step env, (runProviders T w step env).ran, analyzedAt w step env,
    recordsAt T w step env⟩

theorem asked_eq (hgate : w.gate = true) :
    askedAt w step env = [(step.capability, env.gate (step.ask w))] := by
  unfold askedAt
  rw [if_neg (by simp [hgate])]

theorem entryOf_blocked (hgate : w.gate = true) :
    (entryOf T w step env).Blocked ↔ Blocks (env.gate (step.ask w)) := by
  unfold StepTrace.Blocked entryOf
  rw [asked_eq hgate]
  simp

theorem entryOf_review (hgate : w.gate = true) :
    (entryOf T w step env).Review ↔ ¬ Blocks (env.gate (step.ask w)) ∧
    Reviews (env.gate (step.ask w)) := by
  unfold StepTrace.Review
  rw [entryOf_blocked hgate]
  unfold entryOf
  rw [asked_eq hgate]
  simp

/-- One record. -/
theorem records_length : (recordsAt T w step env).length = 1 ↔
    w.evidenceSpine = true ∧ ∃ decisionId,
    env.append (evidenceOf step (runProviders T w step env)) = .ok decisionId := by
  unfold recordsAt
  cases hspine : w.evidenceSpine with
  | false => simp
  | true => cases env.append (evidenceOf step (runProviders T w step env)) <;> simp

/-- No approval among the answers of MoIE. -/
theorem approvals_eq_zero : (analyzedAt w step env).countP approves = 0 ↔
    (w.moie = true → ∀ k < step.verificationClaims.length, env.analyze k ≠ .ok .approve) := by
  have happroves : ∀ answer : Except PyError MoIEVerdict, approves answer = true ↔
      answer = .ok .approve := by
    intro answer
    cases answer <;> simp [approves]
  unfold analyzedAt
  cases hmoie : w.moie with
  | false => simp
  | true =>
    rw [if_neg (by simp), List.countP_eq_zero]
    constructor
    · intro h _ k hk happrove
      refine h _ (List.mem_map_of_mem (List.mem_range.mpr hk)) ?_
      rw [happroves]
      exact happrove
    · intro h answer hanswer happrove
      obtain ⟨k, hk, rfl⟩ := List.mem_map.mp hanswer
      exact h rfl k (List.mem_range.mp hk) ((happroves _).mp happrove)

/-! ## The plan -/

variable {envs : Nat → StepEnv}

/-- Where the gate answers at every step, every step is executed: none is blocked, none is counted
as a review. -/
theorem runSteps_answered (hgate : w.gate = true) : ∀ (steps : List WorkPlanStep) (i : Nat)
    (acc : Progress), (∀ p ∈ steps.zipIdx i, ∃ verdict, (envs p.2).gate (p.1.ask w) = .ok verdict) →
      (runSteps T w envs acc i steps).blocked = acc.blocked ∧
      (runSteps T w envs acc i steps).reviewSteps = acc.reviewSteps ∧
      (runSteps T w envs acc i steps).stepResults = acc.stepResults ++ (steps.zipIdx i).map
        (fun p => resultOf T w p.1 (envs p.2)) ∧
      (runSteps T w envs acc i steps).trace = acc.trace ++ (steps.zipIdx i).map fun p =>
        entryOf T w p.1 (envs p.2)
  | [], _, acc, _ => by simp [runSteps]
  | step :: rest, i, acc, h => by
    rw [List.zipIdx_cons] at h
    obtain ⟨verdict, hverdict⟩ := h (step, i) List.mem_cons_self
    have hgo : (gateStep T w step (envs i)).1 ≠ lit "BLOCK" := by
      rw [Ne, gateStep_eq_block hgate]
      rintro ⟨e, he⟩
      rw [hverdict] at he
      cases he
    obtain ⟨hblocked, hreview, hresults, htrace⟩ :=
      runSteps_answered hgate rest (i + 1) (acc.execute T w step (envs i))
      fun p hp => h p (List.mem_cons_of_mem _ hp)
    unfold runSteps
    rw [if_neg hgo, hblocked, hreview, hresults, htrace]
    refine ⟨rfl, ?_, ?_, ?_⟩
    · show (if _ then _ else _) = _
      rw [if_neg gateStep_ne_review]
    · simp [Progress.execute]
    · simp [Progress.execute, entryOf]

/-- A step at which the gate raises has no record. -/
theorem answered_of_recorded (hgate : w.gate = true) : ∀ (steps : List WorkPlanStep) (i : Nat)
    (acc : Progress), (∀ t ∈ (runSteps T w envs acc i steps).trace, t.records.length = 1) →
      ∀ p ∈ steps.zipIdx i, ∃ verdict, (envs p.2).gate (p.1.ask w) = .ok verdict
  | [], _, _, _ => by simp
  | step :: rest, i, acc, h => by
    unfold runSteps at h
    by_cases hblock : (gateStep T w step (envs i)).1 = lit "BLOCK"
    · rw [if_pos hblock] at h
      have hnone :=
        h ⟨step, askedAt w step (envs i), [], [], []⟩ (List.mem_append_right _ List.mem_cons_self)
      exact absurd hnone (by simp)
    · rw [if_neg hblock] at h
      have hrest := answered_of_recorded hgate rest (i + 1) _ h
      intro p hp
      rw [List.zipIdx_cons] at hp
      rcases List.mem_cons.mp hp with rfl | hp
      · rw [gateStep_eq_block hgate] at hblock
        cases hanswer : (envs i).gate (step.ask w) with
        | ok verdict => exact ⟨verdict, rfl⟩
        | error e => exact absurd ⟨e, hanswer⟩ hblock
      · exact hrest p hp

/-- **When a plan obeys the gate**: at every step the gate answers neither `BLOCK` nor `REVIEW` on
the one capability it is asked about, a step that can run has no other one, the spine records it,
and MoIE approves none of its claims. -/
theorem obeys_iff (T : Texts) (w : Wiring) (envs : Nat → StepEnv) (plan : WorkPlan)
    (hgate : w.gate = true) : Obeys (executePlan T w envs plan).1 (executePlan T w envs plan).2 ↔
      ∀ p ∈ plan.sorted.zipIdx, Heard T w p.1 (envs p.2) := by
  constructor
  · intro h
    have hanswered := answered_of_recorded hgate _ _ _ h.recorded
    obtain ⟨hblocked, hreview, hresults, htrace⟩ :=
      runSteps_answered hgate plan.sorted 0 .start hanswered
    have hblocked : (executePlan T w envs plan).1.blockedSteps = 0 := hblocked
    have hreview : (executePlan T w envs plan).1.reviewSteps = 0 := hreview
    have hresults : (executePlan T w envs plan).1.stepResults = plan.sorted.zipIdx.map fun p =>
        resultOf T w p.1 (envs p.2) :=
      hresults
    have htrace : (executePlan T w envs plan).2 = plan.sorted.zipIdx.map fun p =>
      entryOf T w p.1 (envs p.2) := htrace
    have hverified := h.verified
    rw [hresults, htrace, List.forall₂_map_left_iff, List.forall₂_map_right_iff, List.forall₂_same]
      at hverified
    intro p hp
    obtain ⟨verdict, hverdict⟩ := hanswered p hp
    have hentry : entryOf T w p.1 (envs p.2) ∈ (executePlan T w envs plan).2 := by
      rw [htrace]
      exact List.mem_map_of_mem hp
    have hnotBlocked : ¬ (entryOf T w p.1 (envs p.2)).Blocked := by
      intro hblock
      obtain ⟨before, after, hsplit⟩ := List.append_of_mem hentry
      obtain ⟨-, hone, -⟩ := h.halted before _ after hsplit hblock
      omega
    refine ⟨⟨verdict, hverdict, ?_, ?_⟩, ?_, ?_, ?_⟩
    · intro haction
      rw [entryOf_blocked hgate, hverdict] at hnotBlocked
      exact hnotBlocked haction
    · intro haction
      have hpos : 0 < (executePlan T w envs plan).2.countP fun t => t.Review := by
        refine List.countP_pos_iff.mpr ⟨_, hentry, decide_eq_true ((entryOf_review hgate).mpr ?_)⟩
        rw [← entryOf_blocked (T := T) hgate]
        refine ⟨hnotBlocked, ?_⟩
        rw [hverdict]
        exact haction
      have hcount := h.reviewed
      omega
    · intro hrun c hc
      have hasked := (h.consulted _ hentry (ran_iff.mpr hrun)).1 c hc
      rw [show (entryOf T w p.1 (envs p.2)).asked = _ from asked_eq hgate] at hasked
      exact List.mem_singleton.mp hasked
    · exact records_length.mp (h.recorded _ hentry)
    · refine approvals_eq_zero.mp ?_
      rw [show (analyzedAt w p.1 (envs p.2)).countP approves = _ from (hverified p hp).symm]
      exact claimsVerified_eq
  · intro h
    have hanswered : ∀ p ∈ plan.sorted.zipIdx, ∃ verdict, (envs p.2).gate (p.1.ask w) =
        .ok verdict := by
      intro p hp
      obtain ⟨verdict, hverdict, -⟩ := (h p hp).answered
      exact ⟨verdict, hverdict⟩
    obtain ⟨-, hreview, hresults, htrace⟩ := runSteps_answered hgate plan.sorted 0 .start hanswered
    have hreview : (executePlan T w envs plan).1.reviewSteps = 0 := hreview
    have hresults : (executePlan T w envs plan).1.stepResults = plan.sorted.zipIdx.map fun p =>
        resultOf T w p.1 (envs p.2) :=
      hresults
    have htrace : (executePlan T w envs plan).2 = plan.sorted.zipIdx.map fun p =>
      entryOf T w p.1 (envs p.2) := htrace
    -- what is left of a step is an entry of a step that was heard
    have hentries : ∀ t ∈ (executePlan T w envs plan).2, ∃ p ∈ plan.sorted.zipIdx,
        entryOf T w p.1 (envs p.2) = t := by
      intro t ht
      rw [htrace] at ht
      exact List.mem_map.mp ht
    have hclear : ∀ t ∈ (executePlan T w envs plan).2, ¬ t.Blocked ∧ ¬ t.Review := by
      intro t ht
      obtain ⟨p, hp, rfl⟩ := hentries t ht
      obtain ⟨verdict, hverdict, hblock, hreview⟩ := (h p hp).answered
      rw [entryOf_blocked hgate, entryOf_review hgate, hverdict]
      exact ⟨hblock, fun hboth => hreview hboth.2⟩
    refine ⟨?_, ?_, ?_, ?_, ?_, ?_, ?_⟩
    · intro t ht hran
      refine ⟨?_, (hclear t ht).1⟩
      obtain ⟨p, hp, rfl⟩ := hentries t ht
      intro c hc
      rw [show (entryOf T w p.1 (envs p.2)).asked = _ from asked_eq hgate, List.map_singleton,
        List.mem_singleton]
      exact (h p hp).single (ran_iff.mp hran) c hc
    · intro before t after hsplit hblock
      refine absurd hblock (hclear t ?_).1
      rw [hsplit]
      exact List.mem_append_right _ List.mem_cons_self
    · rw [hreview]
      refine (List.countP_eq_zero.mpr ?_).symm
      intro t ht
      rw [decide_eq_true_eq]
      exact (hclear t ht).2
    · intro t ht hreview
      exact absurd hreview (hclear t ht).2
    · rw [hresults, htrace, List.map_map, List.map_map]
      rfl
    · intro t ht
      obtain ⟨p, hp, rfl⟩ := hentries t ht
      exact records_length.mpr (h p hp).recorded
    · rw [hresults, htrace, List.forall₂_map_left_iff, List.forall₂_map_right_iff,
        List.forall₂_same]
      intro p hp
      rw [show (resultOf T w p.1 (envs p.2)).claimsVerified = 0 from claimsVerified_eq]
      exact (approvals_eq_zero.mpr (h p hp).unapproved).symm

/-! ## A step that the gate blocks -/

/-- A runtime that prints nothing. -/
def quiet : Texts := ⟨fun _ => [], fun _ => []⟩

/-- One provider, the action gate, MoIE and the spine. -/
def wired : Wiring := ⟨[lit "local.slice"], true, true, true, some []⟩

/-- A plan of one step that needs the capability. -/
def planOf (capability : Str) : WorkPlan :=
  ⟨lit "plan:a",
    [⟨lit "s1", 1, lit "do it", 2, [capability], false, lit "local.slice", [], [lit "done"]⟩]⟩

/-- The gate without a switch; the provider succeeds, and MoIE does not approve. -/
def around (_ : Nat) : StepEnv :=
  ⟨actionGate none, fun _ => none, fun _ => .ok ⟨true, lit "done", [], none⟩, fun _ =>
    .ok .conditional, fun _ => .ok (lit "d1")⟩

theorem obeys_read_vault : wired.gate = true ∧
    Obeys (executePlan quiet wired around (planOf (lit "read_vault"))).1
    (executePlan quiet wired around (planOf (lit "read_vault"))).2 := by
  refine ⟨rfl, (obeys_iff quiet wired around (planOf (lit "read_vault")) rfl).mpr ?_⟩
  intro p hp
  obtain rfl :
      p = (⟨lit "s1", 1, lit "do it", 2, [lit "read_vault"], false, lit "local.slice", [],
        [lit "done"]⟩, 0) :=
    List.mem_singleton.mp hp
  refine ⟨⟨_, rfl, by decide +kernel, by decide +kernel⟩, ?_, ⟨rfl, lit "d1", rfl⟩, ?_⟩
  · intro _ c hc
    exact List.mem_singleton.mp hc
  · intro _ k _ happrove
    cases happrove

/-- The gate blocks a step of tier 4; the provider is run, no step is counted as blocked, and the
report is ok. -/
theorem not_obeys : ¬ Obeys (executePlan quiet wired around (planOf (lit "permissions"))).1
    (executePlan quiet wired around (planOf (lit "permissions"))).2 ∧
    (executePlan quiet wired around (planOf (lit "permissions"))).1.ok = true := by
  refine ⟨?_, by decide +kernel⟩
  intro h
  have hall : ∀ t ∈ (executePlan quiet wired around (planOf (lit "permissions"))).2, t.ran ≠ [] ∧
    t.Blocked := by decide +kernel
  have hone : ∃ t, t ∈ (executePlan quiet wired around (planOf (lit "permissions"))).2 :=
    ⟨_, List.mem_cons_self⟩
  obtain ⟨t, ht⟩ := hone
  exact (h.consulted t ht (hall t ht).1).2 (hall t ht).2

end Plei
