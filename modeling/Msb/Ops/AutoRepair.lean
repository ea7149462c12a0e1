import Msb.Ops.Repair

/-!
# The repair loop

`ops/auto_repair.py`: one cycle of the loop proposes plans for what is wrong and then executes the
plans that need no approval, the oldest first and up to a cap.

The plans are those that the store lists, which are the 50 newest of any kind; and the cap is
compared with the number of executions that have completed.

* `loop_spec` — which plans a cycle executes, and that it defers the others it has picked
* `autoRepair_law` — when a cycle stays within its bounds
* `History.executed_within` — a plan that stays ready and is listed is executed
-/

namespace Ops

open Py Ledger Ranking

/-! ## A cycle -/

/-- A root cause of a diagnosis. `confidence` is as it is printed with two digits. -/
structure Root where
  kind : Str
  resource : Str
  confidence : Str

/-- A signal of a diagnosis. `pending` is as it is printed. -/
structure Signal where
  kind : Str
  resource : Str
  detail : Str
  pending : Str

structure Diagnosis where
  roots : List Root
  signals : List Signal

/-- An open discrepancy. -/
structure Discrepancy where
  type : Str
  affectedResource : Str

/-- What a cycle meets, the executions included: each plan is executed once at most. -/
structure Cycle where
  cycleId : Str
  ts : Str
  enabled : Bool
  locked : Bool
  armed : Bool
  dryRun : Bool
  maxAutoExecute : Option Int
  maxExecuteSetting : Int
  scan : PyVal
  diagnosis : Except PyError Diagnosis
  chain : Bool × Str
  staleAnchor : Option Str
  discrepancies : List Discrepancy
  stamps : ℕ → Stamp
  /-- `_provider_quiet`, at the turn of the plan with the id. -/
  quiet : Str → PyVal → Bool
  attempt : Str → Attempt
  verification : Str → Except PyError (Str × Str)

/-- `max_exec` -/
def Cycle.cap (c : Cycle) : ℕ := (c.maxAutoExecute.getD c.maxExecuteSetting).toNat

/-! ## The proposals -/

/-- `PROHIBITED_FOR_AUTO` -/
def prohibitedForAuto : List Str :=
  [lit "chain_invalid", lit "spine_chain_invalid", lit "projection_divergence",
    lit "illegal_transition"]

/-- `plans_for_diagnosis` -/
def plansForDiagnosis (d : Diagnosis) (discrepancies : List Discrepancy) :
    List Candidate × List Str :=
  let outages := d.roots.filter fun r => r.kind = lit "provider_outage"
  let backlogs := d.signals.filter fun s => s.kind = lit "queue_backlog" ∧
    s.resource = lit "wake_inbox"
  let skipped := discrepancies.filter fun row => row.type ∈ prohibitedForAuto
  (outages.map (fun r =>
      { action := .requeueWake
        params := dictOf [("provider", .str r.resource)]
        rootCause := r.resource ++ lit " provider outage (conf " ++ r.confidence ++ lit ")" }) ++
    backlogs.map fun s =>
      { action := .quarantineWake
        params := dictOf [("note", .str s.detail)]
        rootCause := lit "wake inbox backlog (" ++ s.pending ++ lit " pending)" },
    skipped.map fun row => row.type ++ lit " @ " ++ row.affectedResource ++
      lit " — not auto-repairable")

/-- The plan for an anchor that is not fresh, where the chain is valid. -/
def Cycle.reanchor (c : Cycle) : Option Candidate :=
  if c.chain.1 then
    c.staleAnchor.map fun age =>
      { action := .reanchorChain, params := [], rootCause := lit "anchor " ++ age ++ lit " > 600s" }
  else none

/-- Candidates one after the other, each with its stamp; one that has an open plan is passed over.
What was inserted before an exception stays. -/
def insertAll (S : KeySort) (stamps : ℕ → Stamp) : ℕ → List Candidate → RepairStore →
    Except PyError (List RepairPlan) × RepairStore
  | _, [], s => (.ok [], s)
  | n, c :: cs, s =>
    match s.hasOpenPlan S c.action c.params with
    | .error e => (.error e, s)
    | .ok true => insertAll S stamps (n + 1) cs s
    | .ok false =>
      match s.insert (finalizePlan (stamps n) c) with
      | .error e => (.error e, s)
      | .ok s' =>
        let (rest, s'') := insertAll S stamps (n + 1) cs s'
        (rest.map (finalizePlan (stamps n) c :: ·), s'')

/-- The candidates that have an open plan already, before anything is proposed. -/
def Cycle.deduped (S : KeySort) (s : RepairStore) (would : List Candidate) : Except PyError ℕ := do
  let dupes ← would.mapM fun c => s.hasOpenPlan S c.action c.params
  .ok (dupes.filter fun dupe => dupe).length

/-- What is proposed: the plan for the anchor first, and then those of the diagnosis. -/
def Cycle.propose (S : KeySort) (c : Cycle) (candidates : List Candidate) (s : RepairStore) :
    Except PyError (ℕ × List RepairPlan) × RepairStore :=
  match Cycle.deduped S s (candidates ++ c.reanchor.toList) with
  | .error e => (.error e, s)
  | .ok dupes =>
    match insertAll S c.stamps 0 c.reanchor.toList s with
    | (.error e, s') => (.error e, s')
    | (.ok anchors, s') =>
      match insertAll S c.stamps 1 candidates s' with
      | (.error e, s'') => (.error e, s'')
      | (.ok plans, s'') => (.ok (dupes, anchors ++ plans), s'')

/-! ## The executions -/

/-- `_execution_guard`: why a plan has to wait. -/
def executionGuard (lib : Texts) (c : Cycle) (plan : RepairPlan) : Option Str :=
  if plan.action = .requeueWake then
    let provider := (getItem plan.params (lit "provider")).getD (.str [])
    if truthy provider = false then some (lit "requeue_wake without a provider")
    else if c.quiet plan.planId provider = false then
      some (lit "provider " ++ lib.str provider ++ lit " still failing (fresh failures in window)")
    else none
  else none

structure Done where
  planId : Str
  action : Action
  apply : Option PyVal

structure Failure where
  planId : Str
  status : Option PlanStatus
  error : Option Str

structure Deferral where
  planId : Str
  reason : Str

structure Verification where
  planId : Str
  result : Except Str (Str × Str)

/-- What the loop has so far. `calls` are the plans that `execute` was called on. -/
structure Progress where
  store : RepairStore
  calls : List RepairPlan
  executed : List Done
  deferred : List Deferral
  failed : List Failure
  verifications : List Verification

def Progress.start (s : RepairStore) : Progress := ⟨s, [], [], [], [], []⟩

/-- An exception, as it is reported. -/
def Texts.describe (lib : Texts) (e : PyError) : Str := lib.className e ++ lit ": " ++ lib.message e

/-- A plan that goes to its execution. -/
def Progress.execute (lib : Texts) (c : Cycle) (x : Progress) (plan : RepairPlan) : Progress :=
  let (result, store) :=
    Ops.execute lib (c.attempt plan.planId) x.store plan.planId (lit "auto-repair")
  let x := { x with store := store, calls := x.calls ++ [plan] }
  match result with
  | .error e => { x with failed := x.failed ++ [⟨plan.planId, none, some (lib.describe e)⟩] }
  | .ok r =>
    let verification : Verification := ⟨plan.planId, match c.verification plan.planId with
      | .error e => .error (lib.describe e)
      | .ok v => .ok v⟩
    if r.status = .completed then
      { x with
        executed := x.executed ++ [⟨plan.planId, plan.action, r.apply⟩]
        verifications := x.verifications ++ [verification] }
    else if r.status = .rolledBack then
      { x with
        failed := x.failed ++ [⟨plan.planId, some r.status, r.error⟩]
        verifications := x.verifications ++ [verification] }
    else { x with failed := x.failed ++ [⟨plan.planId, some r.status, r.error⟩] }

/-- One round of the loop over the plans. -/
def Progress.step (lib : Texts) (c : Cycle) (x : Progress) (plan : RepairPlan) : Progress :=
  if c.cap ≤ x.executed.length then
    { x with
      deferred := x.deferred ++
        [⟨plan.planId, lit "cap " ++ (intLit c.cap).text ++ lit " reached"⟩] }
  else match executionGuard lib c plan with
    | some reason => { x with deferred := x.deferred ++ [⟨plan.planId, reason⟩] }
    | none => x.execute lib c plan

/-- A plan that the loop may execute: it needs no approval and waits for its execution. -/
def RepairPlan.IsOpen (p : RepairPlan) : Prop := p.requiredAuthority = .auto ∧ p.status = .proposed

instance (p : RepairPlan) : Decidable p.IsOpen := inferInstanceAs (Decidable (_ ∧ _))

/-- `open_auto`: what is open among the plans that are listed, the oldest first. -/
def openAuto (s : RepairStore) : List RepairPlan :=
  ((s.list none 50).filter fun p => p.IsOpen).mergeSort fun a b =>
    decide (a.timestamp ≤ b.timestamp)

/-- The report of a cycle that has come to its end. -/
structure CycleReport where
  scan : PyVal
  diagnosis : Diagnosis
  chain : Bool × Str
  proposed : List RepairPlan
  deduped : ℕ
  prohibited : List Str
  progress : Progress

inductive Report where
  | disabled
  | alreadyRunning
  | killSwitchArmed
  | error (message : Str)
  | dryRun (scan : PyVal) (diagnosis : Diagnosis) (chain : Bool × Str)
    (wouldPropose : List Candidate) (prohibited : List Str)
  | completed (report : CycleReport)

/-- `AutoRepairLoop.run`, without the summary of the cycle that is stored. -/
def run (S : KeySort) (lib : Texts) (c : Cycle) (s : RepairStore) :
    Except PyError Report × RepairStore :=
  if c.enabled = false then (.ok .disabled, s)
  else if c.locked then (.ok .alreadyRunning, s)
  else if c.armed then (.ok .killSwitchArmed, s)
  else match c.diagnosis with
    | .error e => (.ok (.error (lit "diagnose failed: " ++ lib.message e)), s)
    | .ok d =>
      let (candidates, prohibited) := plansForDiagnosis d c.discrepancies
      if c.dryRun
        then (.ok (.dryRun c.scan d c.chain (candidates ++ c.reanchor.toList) prohibited), s)
      else match c.propose S candidates s with
        | (.error e, s') => (.error e, s')
        | (.ok (dupes, proposed), s') =>
          let x := (openAuto s').foldl (Progress.step lib c) (.start s')
          (.ok (.completed ⟨c.scan, d, c.chain, proposed, dupes, prohibited, x⟩), x.store)

/-! ## The plans that are executed -/

section

variable (lib : Texts) (c : Cycle)

/-- The plans that are executed, with room for so many completed ones. -/
def attempted : ℕ → List RepairPlan → List RepairPlan
  | _, [] => []
  | 0, _ => []
  | room + 1, p :: ps =>
    if (executionGuard lib c p).isSome then attempted (room + 1) ps
    else p :: attempted (if (c.attempt p.planId).completes then room else room + 1) ps

/-- The plans that do not have to wait. -/
def ready (ps : List RepairPlan) : List RepairPlan :=
  ps.filter fun p => (executionGuard lib c p).isNone

variable {lib c} {room : ℕ} {p q : RepairPlan} {ps : List RepairPlan}

theorem attempted_cons_waiting (h : (executionGuard lib c p).isSome = true) :
    attempted lib c room (p :: ps) = attempted lib c room ps := by
  cases room with
  | zero => cases ps <;> rfl
  | succ room => exact if_pos h

theorem attempted_cons_ready (h : executionGuard lib c p = none) : attempted lib c (room + 1)
    (p :: ps) =
    p :: attempted lib c (if (c.attempt p.planId).completes then room else room + 1) ps :=
  if_neg (by simp [h])

theorem attempted_zero : attempted lib c 0 ps = [] := by
  cases ps <;> rfl

theorem attempted_sublist : ∀ {ps : List RepairPlan} {room : ℕ}, (attempted lib c room ps).Sublist
    (ready lib c ps)
  | [], _ => .slnil
  | p :: ps, room => by
    cases hguard : executionGuard lib c p with
    | some reason =>
      have hsome : (executionGuard lib c p).isSome = true := by simp [hguard]
      rw [attempted_cons_waiting hsome, ready, List.filter_cons_of_neg (by simp [hguard])]
      exact attempted_sublist
    | none =>
      rw [ready, List.filter_cons_of_pos (by simp [hguard])]
      cases room with
      | zero =>
        rw [attempted_zero]
        exact List.nil_sublist _
      | succ room =>
        rw [attempted_cons_ready hguard]
        exact attempted_sublist.cons_cons p

/-- As many are executed as there is room for, where there are so many. -/
theorem min_le_length_attempted : ∀ {ps : List RepairPlan} {room : ℕ},
    min (ready lib c ps).length room ≤ (attempted lib c room ps).length
  | [], _ => by simp [ready]
  | p :: ps, room => by
    cases hguard : executionGuard lib c p with
    | some reason =>
      have hsome : (executionGuard lib c p).isSome = true := by simp [hguard]
      rw [attempted_cons_waiting hsome, ready, List.filter_cons_of_neg (by simp [hguard])]
      exact min_le_length_attempted
    | none =>
      rw [ready, List.filter_cons_of_pos (by simp [hguard]), List.length_cons]
      cases room with
      | zero => simp
      | succ room =>
        rw [attempted_cons_ready hguard, List.length_cons]
        by_cases hcompletes : (c.attempt p.planId).completes = true
        · have hrest := @min_le_length_attempted ps room
          rw [if_pos hcompletes]
          unfold ready at hrest
          omega
        · have hrest := @min_le_length_attempted ps (room + 1)
          rw [if_neg hcompletes]
          unfold ready at hrest
          omega

/-- **When the cap holds**: no more plans are ready than there is room for, or the first ones all
complete. -/
theorem length_attempted_le : ∀ {ps : List RepairPlan} {room : ℕ},
    (attempted lib c room ps).length ≤ room ↔
    (ready lib c ps).length ≤ room ∨ ∀ p ∈ (ready lib c ps).take room,
    (c.attempt p.planId).completes = true
  | [], _ => by simp [attempted, ready]
  | p :: ps, room => by
    cases hguard : executionGuard lib c p with
    | some reason =>
      have hsome : (executionGuard lib c p).isSome = true := by simp [hguard]
      rw [attempted_cons_waiting hsome, ready, List.filter_cons_of_neg (by simp [hguard])]
      exact length_attempted_le
    | none =>
      rw [ready, List.filter_cons_of_pos (by simp [hguard]), List.length_cons]
      cases room with
      | zero => simp [attempted_zero]
      | succ room =>
        rw [attempted_cons_ready hguard, List.length_cons, Nat.succ_le_succ_iff,
          Nat.succ_le_succ_iff, List.take_succ_cons, List.forall_mem_cons]
        by_cases hcompletes : (c.attempt p.planId).completes = true
        · rw [if_pos hcompletes]
          refine length_attempted_le.trans (or_congr_right ?_)
          simp [hcompletes, ready]
        · -- A plan that does not complete leaves room for one more.
          rw [if_neg hcompletes]
          have hmin := @min_le_length_attempted lib c ps (room + 1)
          have hsub := (@attempted_sublist lib c ps (room + 1)).length_le
          simp only [hcompletes, false_and, or_false, Bool.false_eq_true]
          unfold ready at hmin hsub
          omega

/-- By age. -/
def OldestFirst (ps : List RepairPlan) : Prop := ps.Pairwise fun a b => a.timestamp ≤ b.timestamp

/-- A plan that is older than an executed one is executed too, or it has to wait. -/
theorem attempted_fair : ∀ {ps : List RepairPlan} {room : ℕ}, OldestFirst ps →
    p ∈ attempted lib c room ps → q ∈ ps →
    q.timestamp < p.timestamp → q ∈ attempted lib c room ps ∨ (executionGuard lib c q).isSome = true
  | first :: ps, room, hsorted, hp, hq, hlt => by
    obtain ⟨hfirst, hsorted⟩ := List.pairwise_cons.mp hsorted
    cases hguard : executionGuard lib c first with
    | some reason =>
      have hsome : (executionGuard lib c first).isSome = true := by simp [hguard]
      rw [attempted_cons_waiting hsome] at hp ⊢
      rcases List.mem_cons.mp hq with rfl | hq
      · exact .inr hsome
      · exact attempted_fair hsorted hp hq hlt
    | none =>
      cases room with
      | zero =>
        rw [attempted_zero] at hp
        cases hp
      | succ room =>
        rw [attempted_cons_ready hguard] at hp ⊢
        rcases List.mem_cons.mp hq with rfl | hlater
        · exact .inl List.mem_cons_self
        rcases List.mem_cons.mp hp with rfl | hp
        · exact absurd hlt (not_lt.mpr (hfirst q hlater))
        · exact (attempted_fair hsorted hp hlater hlt).imp_left fun hmem =>
            List.mem_cons_of_mem _ hmem

/-- A ready plan that is not executed has to stand back for an older one that completes. -/
theorem exists_completed_of_not_attempted : ∀ {ps : List RepairPlan}, OldestFirst ps → p ∈ ps →
    executionGuard lib c p = none → p ∉ attempted lib c (room + 1) ps →
      ∃ q ∈ attempted lib c (room + 1) ps, (c.attempt q.planId).completes = true ∧
      q.timestamp ≤ p.timestamp
  | first :: ps, hsorted, hp, hready, hnot => by
    obtain ⟨hfirst, hsorted⟩ := List.pairwise_cons.mp hsorted
    cases hguard : executionGuard lib c first with
    | some reason =>
      have hsome : (executionGuard lib c first).isSome = true := by simp [hguard]
      rw [attempted_cons_waiting hsome] at hnot ⊢
      rcases List.mem_cons.mp hp with rfl | hp
      · rw [hguard] at hready
        cases hready
      · exact exists_completed_of_not_attempted hsorted hp hready hnot
    | none =>
      rw [attempted_cons_ready hguard] at hnot ⊢
      rw [List.mem_cons, not_or] at hnot
      have hmem : p ∈ ps := (List.mem_cons.mp hp).resolve_left hnot.1
      by_cases hcompletes : (c.attempt first.planId).completes = true
      · exact ⟨first, List.mem_cons_self, hcompletes, hfirst p hmem⟩
      · rw [if_neg hcompletes] at hnot ⊢
        obtain ⟨q, hq, hrest⟩ := exists_completed_of_not_attempted hsorted hmem hready hnot.2
        exact ⟨q, List.mem_cons_of_mem _ hq, hrest⟩

end

/-! ## The loop -/

section

variable {lib : Texts} {c : Cycle} {s : RepairStore} {x y : Progress} {p q : RepairPlan}
  {ps : List RepairPlan}

/-- **One execution of the loop.** -/
theorem Progress.execute_spec (hp : p ∈ x.store.plans) (hopen : p.IsOpen) :
    (x.execute lib c p).calls = x.calls ++ [p] ∧ (x.execute lib c p).deferred = x.deferred ∧
      (x.execute lib c p).executed.length = x.executed.length +
      (if (c.attempt p.planId).completes then 1 else 0) ∧
      (x.execute lib c p).store =
          (Ops.execute lib (c.attempt p.planId) x.store p.planId (lit "auto-repair")).2 := by
  have hcompletes :
    (∃ r, (Ops.execute lib (c.attempt p.planId) x.store p.planId (lit "auto-repair")).1 = .ok r ∧
      r.status = .completed) ↔ _ := execute_completed (get_eq_ok.mpr ⟨hp, rfl⟩) hopen.1 hopen.2
  unfold Progress.execute
  cases hresult : Ops.execute lib (c.attempt p.planId) x.store p.planId (lit "auto-repair") with
  | mk result store =>
    rw [hresult] at hcompletes
    cases result with
    | error e =>
      have hfails : (c.attempt p.planId).completes = false := by simpa using hcompletes
      simp [hfails]
    | ok r =>
      have hstatus : r.status = .completed ↔ (c.attempt p.planId).completes = true := by
        simpa using hcompletes
      by_cases hdone : r.status = .completed
      · simp [hdone, hstatus.mp hdone]
      · have hfails : (c.attempt p.planId).completes = false := by simpa using mt hstatus.mpr hdone
        by_cases hback : r.status = .rolledBack <;> simp [hdone, hback, hfails]

/-- What the loop makes of the plans it has picked. -/
structure Looped (lib : Texts) (c : Cycle) (x : Progress) (ps : List RepairPlan) (y : Progress) :
    Prop where
  calls : y.calls = x.calls ++ attempted lib c (c.cap - x.executed.length) ps
  deferred : ∀ p ∈ ps, p ∈ attempted lib c (c.cap - x.executed.length) ps ∨
    p.planId ∈ y.deferred.map Deferral.planId
  picked : ∀ d ∈ y.deferred.map Deferral.planId, d ∈ x.deferred.map Deferral.planId ∨
    d ∈ ps.map RepairPlan.planId
  grows : ∀ d ∈ x.deferred, d ∈ y.deferred
  kept : ∀ q, (∀ p ∈ attempted lib c (c.cap - x.executed.length) ps, q.planId ≠ p.planId) →
    (q ∈ y.store.plans ↔ q ∈ x.store.plans)
  moved : ∀ p ∈ attempted lib c (c.cap - x.executed.length) ps, ∀ q ∈ y.store.plans,
    q.planId = p.planId → q.status ≠ .proposed

/-- A plan that is deferred. -/
theorem Looped.defer {reason : Str}
    (h : Looped lib c { x with deferred := x.deferred ++ [⟨p.planId, reason⟩] } ps y)
    (hskip : attempted lib c (c.cap - x.executed.length) (p :: ps) = attempted lib c
      (c.cap - x.executed.length) ps) :
    Looped lib c x (p :: ps) y := by
  refine ⟨hskip ▸ h.calls, List.forall_mem_cons.mpr ⟨.inr ?_, hskip ▸ h.deferred⟩, fun d hd => ?_,
    fun d hd => h.grows d (List.mem_append_left _ hd), hskip ▸ h.kept, hskip ▸ h.moved⟩
  · exact List.mem_map_of_mem (h.grows _ (List.mem_append_right _ (List.mem_singleton_self _)))
  · rcases h.picked d hd with hd | hd
    · rw [List.map_append, List.mem_append] at hd
      exact hd.imp_right fun hd => List.mem_cons.mpr (.inl (List.mem_singleton.mp hd))
    · exact .inr (List.mem_cons_of_mem _ hd)

/-- A plan that is executed. -/
theorem Looped.execute {room : ℕ} (h : Looped lib c (x.execute lib c p) ps y)
    (hp : p ∈ x.store.plans) (hopen : p.IsOpen)
    (hready : executionGuard lib c p = none) (hroom : c.cap - x.executed.length = room + 1)
    (hne : ∀ q ∈ ps, q.planId ≠ p.planId) : Looped lib c x (p :: ps) y := by
  obtain ⟨hcalls, hdeferred, hlength, hstore⟩ : (x.execute lib c p).calls = x.calls ++ [p] ∧
      _ ∧ _ ∧ _ :=
    Progress.execute_spec hp hopen
  obtain ⟨hframe, hmoved⟩ : (∀ q, q.planId ≠ p.planId →
      (q ∈ (Ops.execute lib (c.attempt p.planId) x.store p.planId (lit "auto-repair")).2.plans ↔
        q ∈ x.store.plans)) ∧ _ :=
    execute_frame (get_eq_ok.mpr ⟨hp, rfl⟩) hopen.1 hopen.2
  rw [← hstore] at hframe hmoved
  have hrest : attempted lib c (c.cap - x.executed.length) (p :: ps) =
      p :: attempted lib c (c.cap - (x.execute lib c p).executed.length) ps := by
    rw [hroom, attempted_cons_ready hready, hlength]
    congr 2
    split <;> omega
  have hlater : ∀ q ∈ attempted lib c (c.cap - (x.execute lib c p).executed.length) ps,
    q.planId ≠ p.planId := fun q hq =>
    hne q (List.mem_of_mem_filter (attempted_sublist.subset hq))
  refine ⟨?_, ?_, ?_, ?_, ?_, ?_⟩
  · rw [hrest, h.calls, hcalls, List.append_assoc]
    rfl
  · rw [hrest]
    exact List.forall_mem_cons.mpr ⟨.inl List.mem_cons_self,
      fun q hq => (h.deferred q hq).imp_left fun hq => List.mem_cons_of_mem _ hq⟩
  · intro d hd
    rw [← hdeferred]
    exact (h.picked d hd).imp_right fun hd => List.mem_cons_of_mem _ hd
  · exact fun d hd => h.grows d (hdeferred ▸ hd)
  · intro q hq
    rw [hrest] at hq
    obtain ⟨hfirst, hothers⟩ := List.forall_mem_cons.mp hq
    exact (h.kept q hothers).trans (hframe q hfirst)
  · rw [hrest]
    refine List.forall_mem_cons.mpr ⟨fun q hq hid => ?_, h.moved⟩
    refine hmoved q ((h.kept q fun r hr => ?_).mp hq) hid
    rw [hid]
    exact (hlater r hr).symm

/-- **The loop**, over plans that are stored as they were picked. -/
theorem loop_spec : ∀ {ps : List RepairPlan} {x : Progress},
    (∀ p ∈ ps, p ∈ x.store.plans ∧ p.IsOpen) →
    (ps.map RepairPlan.planId).Nodup → Looped lib c x ps (ps.foldl (Progress.step lib c) x)
  | [], x, _, _ => by
    refine ⟨?_, fun p hp => absurd hp List.not_mem_nil, fun d hd => .inl hd, fun d hd => hd,
      fun q _ => .rfl, fun p hp => ?_⟩
    · simp [attempted]
    · simp [attempted] at hp
  | p :: ps, x, hps, hnodup => by
    rw [List.map_cons, List.nodup_cons] at hnodup
    obtain ⟨⟨hp, hopen⟩, hrest⟩ := List.forall_mem_cons.mp hps
    have hne : ∀ q ∈ ps, q.planId ≠ p.planId :=
      fun q hq hid => hnodup.1 (hid ▸ List.mem_map_of_mem hq)
    rw [List.foldl_cons]
    by_cases hcap : c.cap ≤ x.executed.length
    · rw [show x.step lib c p = _ from if_pos hcap]
      refine Looped.defer (loop_spec hrest hnodup.2) ?_
      rw [Nat.sub_eq_zero_of_le hcap, attempted_zero, attempted_zero]
    have hstep : x.step lib c p = match executionGuard lib c p with
        | some reason => { x with deferred := x.deferred ++ [⟨p.planId, reason⟩] }
        | none => x.execute lib c p := if_neg hcap
    cases hguard : executionGuard lib c p with
    | some reason =>
      rw [hstep, hguard]
      exact Looped.defer (loop_spec hrest hnodup.2) (attempted_cons_waiting (by simp [hguard]))
    | none =>
      rw [hstep, hguard]
      obtain ⟨room, hroom⟩ : ∃ room, c.cap - x.executed.length = room + 1 :=
        Nat.exists_eq_add_of_le' (by omega)
      refine Looped.execute (loop_spec (fun q hq => ⟨?_, (hrest q hq).2⟩) hnodup.2) hp hopen
        hguard hroom hne
      -- The plans behind it are stored as they were.
      obtain ⟨-, -, -, hstore⟩ : (x.execute lib c p).calls = x.calls ++ [p] ∧ _ ∧ _ ∧ _ :=
        Progress.execute_spec hp hopen
      obtain ⟨hframe, -⟩ : (∀ q, q.planId ≠ p.planId →
          (q ∈ (Ops.execute lib (c.attempt p.planId) x.store p.planId (lit "auto-repair")).2.plans ↔
            q ∈ x.store.plans)) ∧ _ :=
        execute_frame (get_eq_ok.mpr ⟨hp, rfl⟩) hopen.1 hopen.2
      rw [hstore]
      exact (hframe q (hne q hq)).mpr (hrest q hq).1

/-! ### The plans that are picked -/

theorem mem_openAuto : p ∈ openAuto s ↔ p ∈ s.list none 50 ∧ p.IsOpen := by
  rw [openAuto, List.mem_mergeSort, List.mem_filter, decide_eq_true_eq]

/-- Of few plans none is left out. -/
theorem openAuto_perm (hfew : s.plans.length ≤ 50) :
    (openAuto s).Perm (s.plans.filter fun p => p.IsOpen) :=
  (List.mergeSort_perm _ _).trans ((list_perm hfew).filter _)

theorem openAuto_oldestFirst : OldestFirst (openAuto s) := by
  have htrans : ∀ a b c : RepairPlan, decide (a.timestamp ≤ b.timestamp) →
    decide (b.timestamp ≤ c.timestamp) → decide (a.timestamp ≤ c.timestamp) := by
    intro a b c hab hbc
    simp only [decide_eq_true_eq] at hab hbc ⊢
    exact hab.trans hbc
  have htotal : ∀ a b : RepairPlan,
      decide (a.timestamp ≤ b.timestamp) || decide (b.timestamp ≤ a.timestamp) := by
    intro a b
    simpa using le_total a.timestamp b.timestamp
  exact (List.pairwise_mergeSort htrans htotal _).imp fun h => of_decide_eq_true h

theorem openAuto_nodup : ((openAuto s).map RepairPlan.planId).Nodup := by
  rw [openAuto, ((List.mergeSort_perm _ _).map RepairPlan.planId).nodup_iff]
  exact list_nodup.sublist (List.filter_sublist.map _)

/-- **The loop of a cycle.** -/
theorem cycle_spec (lib : Texts) (c : Cycle) (s : RepairStore) :
    Looped lib c (.start s) (openAuto s) ((openAuto s).foldl (Progress.step lib c) (.start s)) :=
  loop_spec (fun _ hp => ⟨mem_list (mem_openAuto.mp hp).1, (mem_openAuto.mp hp).2⟩) openAuto_nodup

/-- Which plans a cycle executes. -/
theorem cycle_calls (lib : Texts) (c : Cycle) (s : RepairStore) :
    ((openAuto s).foldl (Progress.step lib c) (.start s)).calls = attempted lib c c.cap
    (openAuto s) :=
  (cycle_spec lib c s).calls

end

/-! ## Bounded -/

/-- The plans that are stored when a cycle picks: what was there, and what it has proposed. -/
def Cycle.stored (S : KeySort) (c : Cycle) (s : RepairStore) : RepairStore :=
  match c.diagnosis with
  | .error _ => s
  | .ok d => (c.propose S (plansForDiagnosis d c.discrepancies).1 s).2

/-- A cycle stays within its bounds: it executes no more plans than the cap says, each of them open,
by age among all the open plans, and it defers the others. -/
structure Bounded (lib : Texts) (c : Cycle) (s : RepairStore) (x : Progress) : Prop where
  cap : x.calls.length ≤ c.cap
  isOpen : ∀ p ∈ x.calls, p ∈ s.plans ∧ p.IsOpen
  once : x.calls.Nodup
  order : OldestFirst x.calls
  fair : ∀ p ∈ x.calls, ∀ q ∈ s.plans, q.IsOpen → q.timestamp < p.timestamp → q ∈ x.calls ∨
    (executionGuard lib c q).isSome = true
  deferred : ∀ p ∈ s.plans, p.IsOpen → p ∉ x.calls → p.planId ∈ x.deferred.map Deferral.planId

/-- Every open plan is among the 50 newest plans; and no more plans are ready than the cap says, or
the first ones complete. -/
structure Bounding (lib : Texts) (c : Cycle) (s : RepairStore) : Prop where
  listed : ∀ p ∈ s.plans, p.IsOpen → p ∈ s.list none 50
  completing : (ready lib c (openAuto s)).length ≤ c.cap ∨
    ∀ p ∈ (ready lib c (openAuto s)).take c.cap, (c.attempt p.planId).completes = true

section

variable {S : KeySort} {lib : Texts} {c : Cycle} {s s' : RepairStore} {r : CycleReport}

theorem run_eq_completed (h : run S lib c s = (.ok (.completed r), s')) :
    r.progress = (openAuto (c.stored S s)).foldl (Progress.step lib c) (.start (c.stored S s)) ∧
    s' = r.progress.store := by
  unfold run at h
  unfold Cycle.stored
  split at h
  · cases h
  split at h
  · cases h
  split at h
  · cases h
  cases hdiagnosis : c.diagnosis with
  | error e =>
    rw [hdiagnosis] at h
    cases h
  | ok d =>
    rw [hdiagnosis] at h
    simp only at h ⊢
    split at h
    · cases h
    cases hpropose : c.propose S (plansForDiagnosis d c.discrepancies).1 s with
    | mk result stored =>
      rw [hpropose] at h
      cases result with
      | error e => cases h
      | ok proposed =>
        cases h
        exact ⟨rfl, rfl⟩

theorem bounded_iff_bounding (lib : Texts) (c : Cycle) (s : RepairStore) :
    Bounded lib c s ((openAuto s).foldl (Progress.step lib c) (.start s)) ↔ Bounding lib c s := by
  have hspec := cycle_spec lib c s
  have hcalls := cycle_calls lib c s
  have hattempted : (attempted lib c c.cap (openAuto s)).Sublist (openAuto s) :=
    attempted_sublist.trans List.filter_sublist
  constructor
  · intro h
    refine ⟨fun p hp hopen => ?_, ?_⟩
    · have hpicked : p ∈ openAuto s := by
        by_cases hcalled : p ∈ ((openAuto s).foldl (Progress.step lib c) (.start s)).calls
        · rw [hcalls] at hcalled
          exact hattempted.subset hcalled
        · have hd := (hspec.picked _ (h.deferred p hp hopen hcalled)).resolve_left List.not_mem_nil
          obtain ⟨q, hq, hid⟩ := List.mem_map.mp hd
          rwa [s.unique.eq_of_mem hp (mem_list (mem_openAuto.mp hq).1) hid.symm]
      exact (mem_openAuto.mp hpicked).1
    · rw [← length_attempted_le, ← hcalls]
      exact h.cap
  · intro h
    have hall : ∀ p ∈ s.plans, p.IsOpen → p ∈ openAuto s :=
      fun p hp hopen => mem_openAuto.mpr ⟨h.listed p hp hopen, hopen⟩
    refine ⟨?_, ?_, ?_, ?_, ?_, ?_⟩
    · rw [hcalls]
      exact length_attempted_le.mpr h.completing
    · rw [hcalls]
      intro p hp
      have hmem := mem_openAuto.mp (hattempted.subset hp)
      exact ⟨mem_list hmem.1, hmem.2⟩
    · rw [hcalls]
      exact (List.Nodup.of_map _ openAuto_nodup).sublist hattempted
    · rw [hcalls]
      exact openAuto_oldestFirst.sublist hattempted
    · rw [hcalls]
      exact fun p hp q hq hopen hlt => attempted_fair openAuto_oldestFirst hp (hall q hq hopen) hlt
    · intro p hp hopen hnot
      rw [hcalls] at hnot
      exact (hspec.deferred p (hall p hp hopen)).resolve_left hnot

/-- A plan that a cycle executes is one of the listed ones. -/
theorem mem_list_of_mem_calls (h : run S lib c s = (.ok (.completed r), s')) {p : RepairPlan}
    (hp : p ∈ r.progress.calls) : p ∈ (c.stored S s).list none 50 := by
  rw [(run_eq_completed h).1, cycle_calls] at hp
  exact (mem_openAuto.mp (List.mem_of_mem_filter (attempted_sublist.subset hp))).1

end

/-! ## Cycle after cycle -/

/-- Cycles that come to their end, one after the other. Others may write to the plans in between. -/
structure History (S : KeySort) (lib : Texts) where
  cycle : ℕ → Cycle
  before : ℕ → RepairStore
  after : ℕ → RepairStore
  report : ℕ → CycleReport
  ran : ∀ i, run S lib (cycle i) (before i) = (.ok (.completed (report i)), after i)

section

variable {S : KeySort} {lib : Texts} {h : History S lib} {p : RepairPlan}

/-- The plans that are stored when a cycle picks. -/
def History.stored (h : History S lib) (i : ℕ) : RepairStore := (h.cycle i).stored S (h.before i)

def History.Executed (h : History S lib) (p : RepairPlan) (i : ℕ) : Prop :=
  p ∈ (h.report i).progress.calls

/-- No cycle before has executed the plan. -/
def History.Waiting (h : History S lib) (p : RepairPlan) (i : ℕ) : Prop := ∀ j < i, ¬h.Executed p j

/-- A plan that stays ready. What is added to the plans is newer. -/
structure History.StaysReady (h : History S lib) (p : RepairPlan) : Prop where
  isOpen : p.IsOpen
  stored : ∀ i, h.Waiting p i → p ∈ (h.stored i).plans
  ready : ∀ i, executionGuard lib (h.cycle i) p = none
  newer : ∀ i, ∀ q ∈ (h.stored (i + 1)).plans, q.IsOpen → q.timestamp ≤ p.timestamp →
    q ∈ (h.after i).plans

/-- The open plans that are not newer. -/
def History.rivals (h : History S lib) (p : RepairPlan) (i : ℕ) : List RepairPlan :=
  (h.stored i).plans.filter fun q => q.IsOpen ∧ q.timestamp ≤ p.timestamp

theorem History.mem_rivals {q : RepairPlan} {i : ℕ} :
    q ∈ h.rivals p i ↔ q ∈ (h.stored i).plans ∧ q.IsOpen ∧ q.timestamp ≤ p.timestamp := by
  rw [History.rivals, List.mem_filter, decide_eq_true_eq]

/-- **One cycle**: it executes the plan, or one of those that are not newer completes and is no
rival any more. -/
theorem History.rivals_lt (hready : h.StaysReady p) {i : ℕ} (hcap : 0 < (h.cycle i).cap)
    (hlisted : p ∈ (h.stored i).list none 50)
    (hnot : ¬h.Executed p i) : (h.rivals p (i + 1)).length < (h.rivals p i).length := by
  have hprogress : (h.report i).progress = (openAuto (h.stored i)).foldl
      (Progress.step lib (h.cycle i)) (.start (h.stored i)) :=
    (run_eq_completed (h.ran i)).1
  have hafter := (run_eq_completed (h.ran i)).2
  have hspec := cycle_spec lib (h.cycle i) (h.stored i)
  have hcalls := cycle_calls lib (h.cycle i) (h.stored i)
  obtain ⟨room, hroom⟩ := Nat.exists_eq_add_of_le' hcap
  rw [History.Executed, hprogress, hcalls, hroom] at hnot
  obtain ⟨q, hq, -, hle⟩ := exists_completed_of_not_attempted openAuto_oldestFirst
    (mem_openAuto.mpr ⟨hlisted, hready.isOpen⟩) (hready.ready i) hnot
  have hpicked := mem_openAuto.mp (List.mem_of_mem_filter (attempted_sublist.subset hq))
  have hqstored := mem_list hpicked.1
  have hroom' : (h.cycle i).cap - (Progress.start (h.stored i)).executed.length = room + 1 := hroom
  -- What is open after the cycle was open before it, and it is not the plan that has completed.
  have hstays : ∀ r ∈ h.rivals p (i + 1), r ∈ h.rivals p i ∧ r.planId ≠ q.planId := by
    intro r hr
    obtain ⟨hr, hopen, hrle⟩ := History.mem_rivals.mp hr
    have hr := hready.newer i r hr hopen hrle
    rw [hafter, hprogress] at hr
    have hmoved : ∀ a ∈ attempted lib (h.cycle i) (room + 1) (openAuto (h.stored i)),
      r.planId ≠ a.planId := fun a ha hid =>
      hspec.moved a (by rw [hroom']; exact ha) r hr hid hopen.2
    refine ⟨History.mem_rivals.mpr ⟨?_, hopen, hrle⟩, hmoved q hq⟩
    exact (hspec.kept r (by rw [hroom']; exact hmoved)).mp hr
  have hunique : ∀ i, (h.rivals p i).Nodup := fun i =>
    (List.Nodup.of_map _ (h.stored i).unique).sublist List.filter_sublist
  have hnodup : (q :: h.rivals p (i + 1)).Nodup :=
    List.nodup_cons.mpr ⟨fun hmem => (hstays q hmem).2 rfl, hunique (i + 1)⟩
  have hsubset : q :: h.rivals p (i + 1) ⊆ h.rivals p i := by
    refine List.cons_subset.mpr ⟨History.mem_rivals.mpr ⟨hqstored, hpicked.2, hle⟩, fun r hr =>
      (hstays r hr).1⟩
  have hlength := (List.subperm_of_subset hnodup hsubset).length_le
  rwa [List.length_cons] at hlength

/-- **A plan that stays ready and is listed is executed**, after no more cycles than there are plans
that are not newer. -/
theorem History.executed_within (hready : h.StaysReady p) (hcap : ∀ i, 0 < (h.cycle i).cap)
    (hlisted : ∀ i, h.Waiting p i → p ∈ (h.stored i).list none 50) :
    ∃ i < (h.rivals p 0).length, h.Executed p i := by
  by_contra hnever
  have hnot : ∀ i < (h.rivals p 0).length, ¬h.Executed p i :=
    fun i hi hexecuted => hnever ⟨i, hi, hexecuted⟩
  have hfewer : ∀ i ≤ (h.rivals p 0).length, (h.rivals p i).length + i ≤ (h.rivals p 0).length := by
    intro i hi
    induction i with
    | zero => omega
    | succ i ih =>
      have hwaiting : h.Waiting p i := fun j hj => hnot j (by omega)
      have hlt := History.rivals_lt hready (hcap i) (hlisted i hwaiting) (hnot i (by omega))
      have := ih (by omega)
      omega
  have hlast := hfewer _ le_rfl
  have hmem : p ∈ h.rivals p (h.rivals p 0).length :=
    History.mem_rivals.mpr ⟨hready.stored _ hnot, hready.isOpen, le_rfl⟩
  have hpos := List.length_pos_of_mem hmem
  omega

end

/-- **When the loop is bounded and fair.** A cycle stays within its bounds exactly where every open
plan is among the 50 newest plans, and no more plans are ready than the cap says or the first of
them complete. With a cap that is not 0 a plan that stays ready is executed, if it stays among the
50 newest; and a plan that is never among them is never executed. -/
theorem autoRepair_law (S : KeySort) (lib : Texts) :
    (∀ c s r s', run S lib c s = (.ok (.completed r), s') →
      (Bounded lib c (c.stored S s) r.progress ↔ Bounding lib c (c.stored S s))) ∧
    (∀ (h : History S lib) (p : RepairPlan), h.StaysReady p → (∀ i, 0 < (h.cycle i).cap) →
      (∀ i, h.Waiting p i → p ∈ (h.stored i).list none 50) → ∃ i, h.Executed p i) ∧
    ∀ (h : History S lib) (p : RepairPlan), (∀ i, p ∉ (h.stored i).list none 50) →
        ∀ i, ¬h.Executed p i := by
  refine ⟨fun c s r s' hrun => ?_, fun h p hready hcap hlisted => ?_,
    fun h p hhidden i hexecuted => ?_⟩
  · rw [(run_eq_completed hrun).1]
    exact bounded_iff_bounding lib c (c.stored S s)
  · obtain ⟨i, -, hi⟩ := History.executed_within hready hcap hlisted
    exact ⟨i, hi⟩
  · exact hhidden i (mem_list_of_mem_calls (h.ran i) hexecuted)

/-! ## A cap that does not count -/

/-- A plan for the anchor. -/
def anchorPlan (planId : Str) : RepairPlan :=
  finalizePlan ⟨planId, lit "2026-01-01"⟩ ⟨.reanchorChain, [], lit "anchor missing > 600s"⟩

def twoPlans : RepairStore :=
  ⟨[anchorPlan (lit "repair-1"), anchorPlan (lit "repair-2")], by unfold Keyed.Unique; decide⟩

/-- A cycle without proposals, in which the chain does not verify at the executions. -/
def brokenChain : Cycle where
  cycleId := lit "ar-1"
  ts := lit "2026-01-02"
  enabled := true
  locked := false
  armed := false
  dryRun := false
  maxAutoExecute := some 1
  maxExecuteSetting := 3
  scan := .none
  diagnosis := .ok ⟨[], []⟩
  chain := (false, lit "tampered")
  staleAnchor := none
  discrepancies := []
  stamps _ := ⟨[], []⟩
  quiet _ _ := true
  attempt _ :=
    ⟨.ok (false, lit "tampered"), false, [], .ok .none, .ok ⟨true, none, []⟩, .ok .none, []⟩
  verification _ := .ok ([], [])

/-- Executions that fail are not counted. -/
theorem cap_exceeded : ¬∀ (S : KeySort) (lib : Texts) (c : Cycle) (s : RepairStore)
    (r : CycleReport) (s' : RepairStore),
    run S lib c s = (.ok (.completed r), s') → Bounded lib c (c.stored S s) r.progress := by
  intro h
  let lib : Texts := ⟨fun _ => [], fun _ => [], fun _ => []⟩
  have hbounded := h .insertion lib brokenChain twoPlans _ _ rfl
  have hbounding := (bounded_iff_bounding lib brokenChain twoPlans).mp hbounded
  have hready : (ready lib brokenChain (openAuto twoPlans)).Perm twoPlans.plans :=
    (openAuto_perm (by decide)).filter _
  have hlength := hready.length_eq
  rcases hbounding.completing with hfew | hcomplete
  · rw [hlength] at hfew
    exact absurd hfew (by decide)
  · have hpos : 0 < (ready lib brokenChain (openAuto twoPlans)).length := by
      rw [hlength]
      decide
    obtain ⟨first, rest, hfirst⟩ := List.exists_cons_of_length_pos hpos
    rw [hfirst] at hcomplete
    have hfails : (brokenChain.attempt first.planId).completes = true :=
      hcomplete first List.mem_cons_self
    cases hfails

end Ops
