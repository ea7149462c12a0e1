import Msb.Infra.JsonIndent
import Msb.Infra.Keyed
import Msb.Infra.Ranking
import Msb.Ledger.Notary

/-!
# Repair plans

`ops/repair.py`: the plans in their table, and the execution of one of them. What an execution meets
is given with it: the trust in the chain, the kill switch, and what the action, its check and its
rollback come to.

The audit of the steps is best effort and changes no plan; it is left out.

* `execute_frame` — an execution moves its own plan only, and to no state that is open to the loop
* `execute_completed` — when an execution completes
-/

namespace Ops

open Py Ledger Ranking

/-! ## Plans -/

inductive Action where
  | requeueWake
  | quarantineWake
  | reanchorChain
  | resolveDiscrepancy
  deriving DecidableEq

def Action.text : Action → Str
  | .requeueWake => lit "requeue_wake"
  | .quarantineWake => lit "quarantine_wake"
  | .reanchorChain => lit "reanchor_chain"
  | .resolveDiscrepancy => lit "resolve_discrepancy"

inductive Authority where
  | auto
  | operator
  deriving DecidableEq

inductive PlanStatus where
  | proposed
  | awaiting
  | approved
  | executing
  | completed
  | failed
  | rolledBack
  | rejected
  | expired
  deriving DecidableEq

def PlanStatus.text : PlanStatus → Str
  | .proposed => lit "proposed"
  | .awaiting => lit "awaiting_approval"
  | .approved => lit "approved"
  | .executing => lit "executing"
  | .completed => lit "completed"
  | .failed => lit "failed"
  | .rolledBack => lit "rolled_back"
  | .rejected => lit "rejected"
  | .expired => lit "expired"

abbrev Dict := List (PyKey × PyVal)

structure RepairPlan where
  planId : Str
  timestamp : Str
  discrepancyId : Str
  rootCause : Str
  action : Action
  params : Dict
  proposedChanges : Str
  expectedOutcome : Str
  risk : Str
  rollbackPlan : Str
  requiredAuthority : Authority
  verificationContract : Dict
  status : PlanStatus
  decidedBy : Str
  executedAt : Str
  error : Str

/-- An entry of the catalog, without its functions. -/
structure ActionSpec where
  authority : Authority
  risk : Str
  changes : Str
  outcome : Str
  rollback : Str
  contract : Dict

/-- A dict with keys that are texts. -/
def dictOf (items : List (String × PyVal)) : Dict := items.map fun p => (.str (lit p.1), p.2)

/-- `REPAIR_ACTIONS` -/
def repairActions : Action → ActionSpec
  | .requeueWake =>
    { authority := .auto
      risk := lit "low"
      changes := lit "failed wake messages → pending (retry after provider recovery)"
      outcome := lit "failed messages are retried by the next wake cycle"
      rollback := lit "mark the requeued messages failed again"
      contract :=
        dictOf [("kind", .str (lit "wake_requeued")),
          ("expect", .dict (dictOf [("pending_gte", .int 1)]))] }
  | .quarantineWake =>
    { authority := .operator
      risk := lit "medium"
      changes := lit "pending wake messages → failed (drop the stuck backlog)"
      outcome := lit "queue backlog cleared; messages terminal (not retried)"
      rollback := lit "restore the quarantined messages to pending"
      contract :=
        dictOf [("kind", .str (lit "wake_quarantined")),
          ("expect", .dict (dictOf [("pending_eq", .int 0)]))] }
  | .reanchorChain =>
    { authority := .auto
      risk := lit "low"
      changes := lit "re-run scripts/notarize_chain_anchor.sh (idempotent)"
      outcome := lit "a fresh signed anchor covers the chain tip"
      rollback := lit "none (idempotent)"
      contract :=
        dictOf [("kind", .str (lit "chain_anchored")),
          ("expect", .dict (dictOf [("fresh_s", .int 600)]))] }
  | .resolveDiscrepancy =>
    { authority := .operator
      risk := lit "low"
      changes := lit "mark an open discrepancy resolved (operator-confirmed fix)"
      outcome := lit "the discrepancy leaves the open set"
      rollback := lit "reopen the discrepancy"
      contract := dictOf [("kind", .str (lit "discrepancy_resolved")), ("expect", .dict [])] }

/-- What a plan is made of, before the catalog fills in the rest. -/
structure Candidate where
  action : Action
  params : Dict
  rootCause : Str

/-- The id of a new plan, and the time. -/
structure Stamp where
  planId : Str
  timestamp : Str

/-- `_finalize_plan`, and `submit` without a discrepancy: a plan that an operator decides on awaits
the approval. -/
def finalizePlan (stamp : Stamp) (c : Candidate) : RepairPlan :=
  let spec := repairActions c.action
  { planId := stamp.planId
    timestamp := stamp.timestamp
    discrepancyId := []
    rootCause := c.rootCause
    action := c.action
    params := c.params
    proposedChanges := spec.changes
    expectedOutcome := spec.outcome
    risk := spec.risk
    rollbackPlan := spec.rollback
    requiredAuthority := spec.authority
    verificationContract := spec.contract
    status := if spec.authority = .operator then .awaiting else .proposed
    decidedBy := []
    executedAt := []
    error := [] }

/-! ## The store -/

/-- The plans, in the order in which they were inserted. The id is the primary key. -/
structure RepairStore where
  plans : List RepairPlan
  unique : Keyed.Unique RepairPlan.planId plans

def RepairStore.get (s : RepairStore) (planId : Str) : Except PyError RepairPlan :=
  match Keyed.find RepairPlan.planId planId s.plans with
  | none => .error (.raised (lit "KeyError") (lit "unknown repair plan: " ++ planId))
  | some plan => .ok plan

def RepairStore.insert (s : RepairStore) (plan : RepairPlan) : Except PyError RepairStore :=
  if h : ∀ p ∈ s.plans, p.planId ≠ plan.planId then
    .ok ⟨s.plans ++ [plan], by
      rw [Keyed.Unique, List.map_append, List.nodup_append]
      refine ⟨s.unique, List.nodup_singleton _, fun a ha b hb => ?_⟩
      obtain ⟨p, hp, rfl⟩ := List.mem_map.mp ha
      obtain rfl := List.mem_singleton.mp hb
      exact h p hp⟩
  else .error (.databaseError (lit "UNIQUE constraint failed: repair_plans.plan_id"))

/-- `list`: the newest plans. Of two with one timestamp the one inserted first comes first. -/
def RepairStore.list (s : RepairStore) (status : Option PlanStatus) (limit : ℕ) : List RepairPlan :=
  (ranked RepairPlan.timestamp (s.plans.filter fun p => status = none ∨
    status = some p.status)).take limit

/-- What `set_status` writes. -/
structure StatusUpdate where
  status : PlanStatus
  decidedBy : Str
  error : Str
  executedAt : Str

def RepairPlan.moved (p : RepairPlan) (u : StatusUpdate) : RepairPlan :=
  { p with
    status := u.status
    decidedBy := u.decidedBy
    error := u.error.take 500
    executedAt := u.executedAt }

def RepairStore.setStatus (s : RepairStore) (planId : Str) (u : StatusUpdate) : RepairStore where
  plans := s.plans.map fun p => if p.planId = planId then p.moved u else p
  unique := by
    have hids : (s.plans.map fun p => if p.planId = planId then p.moved u else p).map
      RepairPlan.planId = s.plans.map RepairPlan.planId := by
      rw [List.map_map]
      refine List.map_congr_left fun p _ => ?_
      show (if p.planId = planId then p.moved u else p).planId = p.planId
      split <;> rfl
    rw [Keyed.Unique, hids]
    exact s.unique

/-- `dedupe_key` -/
def dedupeKey (S : KeySort) (action : Action) (params : Dict) : Except PyError Str :=
  if action = .quarantineWake then .ok action.text
  else dumps S true lineStyle (.dict [(.str action.text, .dict params)])

def openStatuses : List PlanStatus := [.proposed, .awaiting, .approved, .executing]

def RepairStore.hasOpenPlan (S : KeySort) (s : RepairStore) (action : Action) (params : Dict) :
    Except PyError Bool := do
  let wanted ← dedupeKey S action params
  let keys ← (s.plans.filter fun p => p.action = action ∧ p.status ∈ openStatuses).mapM fun p =>
    dedupeKey S p.action p.params
  .ok (wanted ∈ keys)

/-! ## Execution -/

/-- `str(exc)`, the name of the class of an exception, and `str` of a value. -/
structure Texts where
  message : PyError → Str
  className : PyError → Str
  str : PyVal → Str

/-- What the check of an action says. `text` is the whole of it as a text. -/
structure Check where
  valid : Bool
  reason : Option Str
  text : Str

/-- What an execution meets. -/
structure Attempt where
  trust : Except PyError (Bool × Str)
  armed : Bool
  startedAt : Str
  apply : Except PyError PyVal
  verify : Except PyError Check
  rollback : Except PyError PyVal
  endedAt : Str

/-- What `execute` returns. -/
structure Executed where
  planId : Str
  status : PlanStatus
  error : Option Str
  apply : Option PyVal

/-- The way of the execution to its end. -/
def Attempt.verdict (lib : Texts) (a : Attempt) (planId operator : Str) :
    Except PyError (Executed × StatusUpdate) :=
  let failed (error : Str) : Executed × StatusUpdate :=
    (⟨planId, .failed, some error, none⟩, ⟨.failed, operator, error, []⟩)
  let trust := match a.trust with
    | .error _ => (false, lit "chain verify raised")
    | .ok trust => trust
  if trust.1 = false then .ok (failed (lit "chain not trustworthy: " ++ trust.2))
  else if a.armed then .ok (failed (lit "kill switch armed"))
  else match a.apply with
    | .error e => .ok (failed (lib.message e))
    | .ok applied =>
      match a.verify with
      | .error e => .error e
      | .ok check =>
        if check.valid then .ok (⟨planId, .completed, none, some applied⟩,
          ⟨.completed, operator, [], a.endedAt⟩)
        else match a.rollback with
          | .error e => .error e
          | .ok _ =>
            .ok (⟨planId, .rolledBack,
              some (lit "verification failed: " ++ check.reason.getD (lit "contract not met")),
              none⟩, ⟨.rolledBack, operator, lit "verification failed: " ++ check.text, []⟩)

/-- `execute`. An exception of the check or of the rollback leaves the plan as it is executed. -/
def execute (lib : Texts) (a : Attempt) (s : RepairStore) (planId operator : Str) :
    Except PyError Executed × RepairStore :=
  match s.get planId with
  | .error e => (.error e, s)
  | .ok plan =>
    if plan.requiredAuthority = .operator ∧ plan.status ≠ .approved then
      (.error (.valueError (lit "plan " ++ planId ++ lit " requires operator approval (status: " ++
        plan.status.text ++ lit ")")), s)
    else if plan.status ≠ .approved ∧ plan.status ≠ .proposed then
      (.error (.valueError (lit "plan " ++ planId ++ lit " is " ++ plan.status.text ++
        lit "; expected approved or proposed (AUTO)")), s)
    else match a.verdict lib planId operator with
      | .error e => (.error e, s.setStatus planId ⟨.executing, operator, [], a.startedAt⟩)
      | .ok (executed, update) => (.ok executed, s.setStatus planId update)

/-- The execution goes through. -/
def Attempt.completes (a : Attempt) : Bool :=
  match a.trust, a.armed, a.apply, a.verify with
  | .ok (true, _), false, .ok _, .ok check => check.valid
  | _, _, _, _ => false

section

variable {lib : Texts} {a : Attempt} {s : RepairStore} {plan p : RepairPlan} {planId operator : Str}
  {u : StatusUpdate} {executed : Executed}

theorem get_eq_ok : s.get planId = .ok plan ↔ plan ∈ s.plans ∧ plan.planId = planId := by
  rw [← Keyed.find_eq_some s.unique]
  unfold RepairStore.get
  cases Keyed.find RepairPlan.planId planId s.plans <;> simp

theorem mem_list {status : Option PlanStatus} {limit : ℕ} (h : plan ∈ s.list status limit) :
    plan ∈ s.plans :=
  List.mem_of_mem_filter (mem_ranked.mp (List.mem_of_mem_take h))

/-- All plans, where there are no more than the limit says. -/
theorem list_perm {limit : ℕ} (h : s.plans.length ≤ limit) : (s.list none limit).Perm s.plans := by
  have hall : s.plans.filter (fun p => (none : Option PlanStatus) = none ∨ none = some p.status) =
    s.plans := List.filter_eq_self.mpr (by simp)
  unfold RepairStore.list
  rw [hall, List.take_of_length_le ((ranked_perm _ _).length_eq.trans_le h)]
  exact ranked_perm _ _

theorem list_nodup {status : Option PlanStatus} {limit : ℕ} :
    ((s.list status limit).map RepairPlan.planId).Nodup := by
  unfold RepairStore.list
  refine List.Nodup.sublist ((List.take_sublist _ _).map _) ?_
  rw [((ranked_perm _ _).map RepairPlan.planId).nodup_iff]
  exact s.unique.sublist (List.filter_sublist.map _)

/-- Only the plan with the id is written. -/
theorem mem_setStatus_of_ne (hne : p.planId ≠ planId) :
    p ∈ (s.setStatus planId u).plans ↔ p ∈ s.plans := by
  show p ∈ s.plans.map _ ↔ _
  rw [List.mem_map]
  constructor
  · rintro ⟨q, hq, rfl⟩
    by_cases hid : q.planId = planId
    · rw [if_pos hid] at hne
      exact absurd hid hne
    · rwa [if_neg hid]
  · intro hp
    exact ⟨p, hp, if_neg hne⟩

theorem status_of_mem_setStatus (h : p ∈ (s.setStatus planId u).plans) (hid : p.planId = planId) :
    p.status = u.status := by
  obtain ⟨q, -, rfl⟩ := List.mem_map.mp h
  by_cases hq : q.planId = planId
  · rw [if_pos hq]
    rfl
  · rw [if_neg hq] at hid
    exact absurd hid hq

/-- **What an execution comes to**: it says what it writes, and it leaves no plan as proposed. -/
theorem verdict_eq_ok (h : a.verdict lib planId operator = .ok (executed, u)) :
    executed.planId = planId ∧ executed.status = u.status ∧ u.status ≠ .proposed ∧
      (executed.status = .completed ↔ a.completes = true) := by
  unfold Attempt.verdict at h
  unfold Attempt.completes
  cases htrust : a.trust with
  | error e =>
    rw [htrust] at h
    cases h
    simp
  | ok trust =>
    obtain ⟨valid, reason⟩ := trust
    rw [htrust] at h
    cases valid with
    | false =>
      cases h
      simp
    | true =>
      cases harmed : a.armed with
      | true =>
        rw [harmed] at h
        cases h
        simp
      | false =>
        rw [harmed] at h
        cases happly : a.apply with
        | error e =>
          rw [happly] at h
          cases h
          simp
        | ok applied =>
          rw [happly] at h
          cases hverify : a.verify with
          | error e =>
            rw [hverify] at h
            cases h
          | ok check =>
            rw [hverify] at h
            cases hvalid : check.valid with
            | true =>
              simp only [hvalid, if_true] at h
              cases h
              simp [hvalid]
            | false =>
              simp only [hvalid] at h
              -- what does not hold is rolled back, and then it is not completed
              cases hrollback : a.rollback with
              | error e =>
                rw [hrollback] at h
                cases h
              | ok undone =>
                rw [hrollback] at h
                cases h
                simp [hvalid]

theorem verdict_eq_error {e : PyError} (h : a.verdict lib planId operator = .error e) :
    a.completes = false := by
  by_contra hcompletes
  have hcompletes : a.completes = true := by simpa using hcompletes
  unfold Attempt.completes at hcompletes
  split at hcompletes
  next reason applied check htrust harmed happly hverify =>
    simp [Attempt.verdict, htrust, harmed, happly, hverify, hcompletes] at h
  · cases hcompletes

/-- A plan of the loop goes to its verdict. -/
theorem execute_of_proposed (hget : s.get planId = .ok plan)
    (hauto : plan.requiredAuthority = .auto)
    (hproposed : plan.status = .proposed) : execute lib a s planId operator =
      match a.verdict lib planId operator with
      | .error e => (.error e, s.setStatus planId ⟨.executing, operator, [], a.startedAt⟩)
      | .ok (executed, update) => (.ok executed, s.setStatus planId update) := by
  unfold execute
  rw [hget]
  simp [hauto, hproposed]

/-- **The frame of an execution**: the other plans stay, and the plan itself is not proposed any
more. -/
theorem execute_frame (hget : s.get planId = .ok plan) (hauto : plan.requiredAuthority = .auto)
    (hproposed : plan.status = .proposed) :
    (∀ q, q.planId ≠ planId → (q ∈ (execute lib a s planId operator).2.plans ↔ q ∈ s.plans)) ∧
      ∀ q ∈ (execute lib a s planId operator).2.plans, q.planId = planId →
      q.status ≠ .proposed := by
  rw [execute_of_proposed hget hauto hproposed]
  cases hverdict : a.verdict lib planId operator with
  | error e =>
    refine ⟨fun q hne => mem_setStatus_of_ne hne, fun q hq hid => ?_⟩
    rw [status_of_mem_setStatus hq hid]
    exact nofun
  | ok end' =>
    obtain ⟨executed, update⟩ := end'
    refine ⟨fun q hne => mem_setStatus_of_ne hne, fun q hq hid => ?_⟩
    rw [status_of_mem_setStatus hq hid]
    exact (verdict_eq_ok hverdict).2.2.1

/-- **When an execution completes.** -/
theorem execute_completed (hget : s.get planId = .ok plan) (hauto : plan.requiredAuthority = .auto)
    (hproposed : plan.status = .proposed) :
    (∃ r, (execute lib a s planId operator).1 = .ok r ∧ r.status = .completed) ↔
        a.completes = true := by
  rw [execute_of_proposed hget hauto hproposed]
  cases hverdict : a.verdict lib planId operator with
  | error e => simp [verdict_eq_error hverdict]
  | ok end' =>
    obtain ⟨executed, update⟩ := end'
    simpa using (verdict_eq_ok hverdict).2.2.2

end

end Ops
