import Msb.Ops.Repair

/-!
# Discrepancies

`ops/discrepancy.py`: the findings in their table, and the queries of it. Every query is for the
newest rows, a hundred unless it says otherwise.

From `ops/repair.py`, the action that marks one of them resolved, with the check that follows it and
the rollback. The check looks for the row among the newest hundred that are resolved.

* `resolved_listed` — when the check finds the row
* `executeResolve_status` — what an execution of the action comes to
-/

namespace Ops.Verify

open Py Ledger Ranking

/-! ## The store -/

inductive DiscrepancyStatus where
  | opened
  | acknowledged
  | resolved
  | autoRepaired
  deriving DecidableEq

structure Discrepancy where
  id : Str
  timestamp : Str
  subsystem : Str
  expectedState : Str
  observedState : Str
  discrepancyType : Str
  severity : Str
  evidence : PyVal
  confidence : PyFloat
  affectedResource : Str
  suggestedAction : Str
  status : DiscrepancyStatus
  lastSeen : Str

/-- `fingerprint` -/
def Discrepancy.fingerprint (d : Discrepancy) : Str :=
  d.subsystem ++ lit ":" ++ d.discrepancyType ++ lit ":" ++ d.affectedResource

/-- The rows, in the order in which they were inserted. The id is the primary key. -/
structure DiscrepancyStore where
  rows : List Discrepancy
  unique : Keyed.Unique Discrepancy.id rows

/-- The arguments of `query`. -/
structure Query where
  subsystem : Option Str := none
  severity : Option Str := none
  status : Option DiscrepancyStatus := none
  limit : ℕ := 100

/-- A filter that is empty filters nothing. -/
def passes (filter : Option Str) (value : Str) : Bool :=
  filter = none || filter = some [] || filter = some value

def Query.selects (q : Query) (d : Discrepancy) : Bool :=
  passes q.subsystem d.subsystem && passes q.severity d.severity &&
    (q.status = none || q.status = some d.status)

/-- `query`: the newest first. Of two with one timestamp the one inserted first comes first. -/
def DiscrepancyStore.query (s : DiscrepancyStore) (q : Query) : List Discrepancy :=
  (ranked Discrepancy.timestamp (s.rows.filter q.selects)).take q.limit

def setStatusOf (discrepancyId : Str) (status : DiscrepancyStatus) (d : Discrepancy) :
    Discrepancy :=
  if d.id = discrepancyId then { d with status := status } else d

@[simp] theorem setStatusOf_id (discrepancyId : Str) (status : DiscrepancyStatus)
    (d : Discrepancy) : (setStatusOf discrepancyId status d).id = d.id := by
  unfold setStatusOf
  split <;> rfl

/-- `set_status` -/
def DiscrepancyStore.setStatus (s : DiscrepancyStore) (discrepancyId : Str)
    (status : DiscrepancyStatus) : DiscrepancyStore where
  rows := s.rows.map (setStatusOf discrepancyId status)
  unique := by
    have hids : Discrepancy.id ∘ setStatusOf discrepancyId status = Discrepancy.id :=
      funext (setStatusOf_id _ _)
    rw [Keyed.Unique, List.map_map, hids]
    exact s.unique

/-! ## What a query leaves out -/

section

variable {s : DiscrepancyStore} {d r : Discrepancy} {status : DiscrepancyStatus}
  {earlier later : List Discrepancy}

/-- The rows with a status. -/
def DiscrepancyStore.having (s : DiscrepancyStore) (status : DiscrepancyStatus) :
    List Discrepancy :=
  s.rows.filter fun d => d.status = status

/-- The rows with a status that a query for them does not return. -/
def DiscrepancyStore.omitted (s : DiscrepancyStore) (status : DiscrepancyStatus) :
    List Discrepancy :=
  (ranked Discrepancy.timestamp (s.having status)).drop 100

theorem selects_status : (Query.selects { status := some status } : Discrepancy → Bool) = fun d =>
    decide (d.status = status) := by
  funext d
  simp [Query.selects, passes, eq_comm]

theorem query_status : s.query { status := some status } =
    (ranked Discrepancy.timestamp (s.having status)).take 100 := by
  unfold DiscrepancyStore.query
  rw [selects_status]
  rfl

theorem mem_having : d ∈ s.having status ↔ d ∈ s.rows ∧ d.status = status := by
  simp [DiscrepancyStore.having]

/-- A row with the status is returned or left out. -/
theorem mem_having_iff :
    d ∈ s.having status ↔ d ∈ s.query { status := some status } ∨ d ∈ s.omitted status := by
  rw [query_status, DiscrepancyStore.omitted, ← List.mem_append, List.take_append_drop]
  exact mem_ranked.symm

/-- How many rows that are resolved come before a row in a query, where the row stands between
others. -/
def resolvedAhead (earlier : List Discrepancy) (d : Discrepancy) (later : List Discrepancy) : ℕ :=
  (earlier.filter fun r => r.status = .resolved ∧ d.timestamp ≤ r.timestamp).length +
    (later.filter fun r => r.status = .resolved ∧ d.timestamp < r.timestamp).length

/-- The other rows stay as they are. -/
theorem rows_setStatus (h : s.rows = earlier ++ d :: later) :
    (s.setStatus d.id status).rows = earlier ++ { d with status := status } :: later := by
  have hunique := s.unique
  rw [Keyed.Unique, h, List.map_append, List.map_cons, List.nodup_middle, List.nodup_cons,
    List.mem_append] at hunique
  obtain ⟨hnone, -⟩ := hunique
  have hkeep : ∀ rows : List Discrepancy, d.id ∉ rows.map Discrepancy.id →
      rows.map (setStatusOf d.id status) = rows := by
    intro rows hrows
    refine (List.map_congr_left fun r hr => ?_).trans (List.map_id rows)
    have hne : r.id ≠ d.id := fun heq => hrows (heq ▸ List.mem_map_of_mem hr)
    exact if_neg hne
  show s.rows.map _ = _
  rw [h, List.map_append, List.map_cons, hkeep earlier fun hm => hnone (.inl hm),
    hkeep later fun hm => hnone (.inr hm), setStatusOf, if_pos rfl]

/-- **When the check finds the row**: where fewer than a hundred of the rows that are resolved come
before it. -/
theorem resolved_listed (h : s.rows = earlier ++ d :: later) :
    (∃ r ∈ (s.setStatus d.id .resolved).query { status := some .resolved }, r.id = d.id) ↔
    resolvedAhead earlier d later < 100 := by
  set d' : Discrepancy := { d with status := .resolved }
  have hrows : (s.setStatus d.id .resolved).rows = earlier ++ d' :: later := rows_setStatus h
  have hunique := (s.setStatus d.id .resolved).unique
  have hapart := hunique
  rw [Keyed.Unique, hrows, List.map_append, List.map_cons, List.nodup_middle, List.nodup_cons,
    List.mem_append, not_or] at hapart
  have hhaving : (s.setStatus d.id .resolved).having .resolved =
      earlier.filter (fun r => r.status = .resolved) ++ d' :: later.filter fun r =>
      r.status = .resolved := by
    rw [DiscrepancyStore.having, hrows, List.filter_append, List.filter_cons_of_pos (by rfl)]
  -- the row is known by its id
  have hid : (∃ r ∈ (s.setStatus d.id .resolved).query { status := some .resolved }, r.id = d.id) ↔
      d' ∈ (s.setStatus d.id .resolved).query { status := some .resolved } := by
    constructor
    · rintro ⟨r, hr, hrd⟩
      have hmem := (mem_having.mp (mem_having_iff.mpr (.inl hr))).1
      have hd' : d' ∈ (s.setStatus d.id .resolved).rows := by
        rw [hrows]
        exact List.mem_append_right _ List.mem_cons_self
      rwa [← hunique.eq_of_mem hmem hd' hrd]
    · exact fun hd' => ⟨d', hd', rfl⟩
  rw [hid, query_status, hhaving, mem_take_ranked_middle, List.filter_filter, List.filter_filter,
    resolvedAhead]
  · refine iff_of_eq (congrArg₂ (fun m n => m + n < 100) ?_ ?_)
    · exact congrArg List.length
        (List.filter_congr fun r _ => by rw [Bool.decide_and, Bool.and_comm])
    · exact congrArg List.length
        (List.filter_congr fun r _ => by rw [Bool.decide_and, Bool.and_comm]; congr)
  · exact fun hm => hapart.1.1 (List.mem_map_of_mem (List.mem_of_mem_filter hm))
  · exact fun hm => hapart.1.2 (List.mem_map_of_mem (List.mem_of_mem_filter hm))

end

/-! ## The action -/

/-- What an execution meets besides the two stores. `bound` is what the database compares a
parameter as that is no text. -/
structure Gate where
  trust : Except PyError (Bool × Str)
  armed : Bool
  startedAt : Str
  endedAt : Str
  bound : PyVal → Except PyError Str

/-- The text of a bound parameter. -/
def Gate.text (g : Gate) : PyVal → Except PyError Str
  | .str s => .ok s
  | v => g.bound v

/-- `_apply_resolve_discrepancy` -/
def applyResolveDiscrepancy (g : Gate) (params : Dict) (s : DiscrepancyStore) :
    Except PyError PyVal × DiscrepancyStore :=
  let discId := (getItem params (lit "discrepancy_id")).getD (.str [])
  if truthy discId = false then
    (.error (.valueError (lit "resolve_discrepancy requires params.discrepancy_id")), s)
  else
    match g.text discId with
    | .error e => (.error e, s)
    | .ok id => (.ok (.dict (dictOf [("resolved", discId)])), s.setStatus id .resolved)

/-- `apply_result.get("resolved", "")` -/
def resolvedId : PyVal → PyVal
  | .dict items => (getItem items (lit "resolved")).getD (.str [])
  | _ => .str []

/-- `_verify_discrepancy_resolved` -/
def verifyDiscrepancyResolved (lib : Texts) (applyResult : PyVal) (s : DiscrepancyStore) : Check :=
  let discId := resolvedId applyResult
  let valid := (s.query { status := some .resolved }).any fun r => isText discId r.id
  ⟨valid, none, lib.str (.dict (dictOf [("valid", .bool valid), ("id", discId)]))⟩

/-- `_rollback_resolve_discrepancy` -/
def rollbackResolveDiscrepancy (g : Gate) (applyResult : PyVal) (s : DiscrepancyStore) :
    Except PyError PyVal × DiscrepancyStore :=
  let discId := resolvedId applyResult
  let result : PyVal := .dict (dictOf [("reopened", discId)])
  if truthy discId = false then (.ok result, s)
  else
    match g.text discId with
    | .error e => (.error e, s)
    | .ok id => (.ok result, s.setStatus id .opened)

/-- What the execution of a plan meets, where the plan is to resolve a discrepancy. -/
def resolveAttempt (lib : Texts) (g : Gate) (params : Dict) (s : DiscrepancyStore) : Attempt :=
  let applied := applyResolveDiscrepancy g params s
  { trust := g.trust
    armed := g.armed
    startedAt := g.startedAt
    apply := applied.1
    verify := applied.1.map fun result => verifyDiscrepancyResolved lib result applied.2
    rollback := applied.1 >>= fun result => (rollbackResolveDiscrepancy g result applied.2).1
    endedAt := g.endedAt }

/-- The discrepancies after an action that was applied: its check failed where they are rolled back.
-/
def settled (lib : Texts) (g : Gate) (params : Dict) (s : DiscrepancyStore) : DiscrepancyStore :=
  let applied := applyResolveDiscrepancy g params s
  match applied.1 with
  | .error _ => s
  | .ok result =>
    if (verifyDiscrepancyResolved lib result applied.2).valid then applied.2
    else (rollbackResolveDiscrepancy g result applied.2).2

/-- The chain is trusted, and the kill switch is not armed. -/
def Gate.opens (g : Gate) : Bool :=
  match g.trust with
  | .ok (true, _) => !g.armed
  | _ => false

/-- The plan may be executed. -/
def executable (plan : RepairPlan) : Bool :=
  plan.status = .approved || (plan.status = .proposed && plan.requiredAuthority ≠ .operator)

/-- `execute`, for a plan to resolve a discrepancy. -/
def executeResolve (lib : Texts) (g : Gate) (plans : RepairStore) (s : DiscrepancyStore)
    (planId operator : Str) : Except PyError Executed × RepairStore × DiscrepancyStore :=
  match plans.get planId with
  | .error e => (.error e, plans, s)
  | .ok plan =>
    let (executed, plans') := execute lib (resolveAttempt lib g plan.params s) plans planId operator
    (executed, plans', if executable plan && g.opens then settled lib g plan.params s else s)

section

variable {lib : Texts} {g : Gate} {plans : RepairStore} {s : DiscrepancyStore} {plan : RepairPlan}
  {d : Discrepancy} {earlier later : List Discrepancy} {planId operator : Str} {reason : Str}

theorem applyResolveDiscrepancy_of_id {params : Dict}
    (hparam : getItem params (lit "discrepancy_id") = some (.str d.id))
    (hid : d.id ≠ []) : applyResolveDiscrepancy g params s =
      (.ok (.dict (dictOf [("resolved", .str d.id)])), s.setStatus d.id .resolved) := by
  unfold applyResolveDiscrepancy
  simp [hparam, truthy, hid, Gate.text]

theorem resolvedId_dict (v : PyVal) : resolvedId (.dict (dictOf [("resolved", v)])) = v := by
  show ((List.find? _ [(PyKey.str (lit "resolved"), v)]).map Prod.snd).getD (.str []) = v
  rw [List.find?_cons_of_pos (by simp)]
  rfl

theorem verifyDiscrepancyResolved_valid :
    (verifyDiscrepancyResolved lib (.dict (dictOf [("resolved", .str d.id)])) s).valid = true ↔
      ∃ r ∈ s.query { status := some .resolved }, r.id = d.id := by
  unfold verifyDiscrepancyResolved
  rw [resolvedId_dict]
  simp only [List.any_eq_true, isText, decide_eq_true_eq]
  exact exists_congr fun r => and_congr_right fun _ => eq_comm

theorem rollbackResolveDiscrepancy_of_id (hid : d.id ≠ []) :
    rollbackResolveDiscrepancy g (.dict (dictOf [("resolved", .str d.id)])) s =
      (.ok (.dict (dictOf [("reopened", .str d.id)])), s.setStatus d.id .opened) := by
  unfold rollbackResolveDiscrepancy
  rw [resolvedId_dict]
  simp [truthy, hid, Gate.text]

theorem execute_of_executable {a : Attempt} (hget : plans.get planId = .ok plan)
    (hexec : executable plan = true) : execute lib a plans planId operator =
      match a.verdict lib planId operator with
      | .error e => (.error e, plans.setStatus planId ⟨.executing, operator, [], a.startedAt⟩)
      | .ok (executed, update) => (.ok executed, plans.setStatus planId update) := by
  have hauthority : ¬(plan.requiredAuthority = .operator ∧ plan.status ≠ .approved) := by
    rintro ⟨hoperator, hstatus⟩
    simp [executable, hoperator, hstatus] at hexec
  have hstatus : ¬(plan.status ≠ .approved ∧ plan.status ≠ .proposed) := by
    rintro ⟨happroved, hproposed⟩
    simp [executable, happroved, hproposed] at hexec
  unfold execute
  rw [hget]
  exact (if_neg hauthority).trans (if_neg hstatus)

/-- Where the gate opens and the action applies, the check decides. -/
theorem verdict_of_checked {a : Attempt} {applied undone : PyVal} {check : Check}
    (htrust : a.trust = .ok (true, reason))
    (harmed : a.armed = false) (happly : a.apply = .ok applied) (hverify : a.verify = .ok check)
    (hrollback : a.rollback = .ok undone) :
    ∃ executed update, a.verdict lib planId operator = .ok (executed, update) ∧
      executed.status = if check.valid then .completed else .rolledBack := by
  unfold Attempt.verdict
  simp only [htrust, harmed, happly, hverify, hrollback]
  cases check.valid with
  | true => exact ⟨_, _, rfl, rfl⟩
  | false => exact ⟨_, _, rfl, rfl⟩

theorem Gate.trusted (hopens : g.opens = true) :
    (∃ reason, g.trust = .ok (true, reason)) ∧ g.armed = false := by
  unfold Gate.opens at hopens
  split at hopens
  next reason htrust => exact ⟨⟨reason, htrust⟩, by simpa using hopens⟩
  · cases hopens

/-- **What an execution of the action comes to.** The row is there and the plan is executed: it
completes where the check finds the row, and otherwise the row is open again. -/
theorem executeResolve_status (hget : plans.get planId = .ok plan) (hexec : executable plan = true)
    (hopens : g.opens = true)
    (hparam : getItem plan.params (lit "discrepancy_id") = some (.str d.id)) (hid : d.id ≠ [])
    (hrows : s.rows = earlier ++ d :: later) :
    ∃ executed, (executeResolve lib g plans s planId operator).1 = .ok executed ∧
      ((resolvedAhead earlier d later < 100 ∧ executed.status = .completed ∧
          (executeResolve lib g plans s planId operator).2.2 = s.setStatus d.id .resolved) ∨
        (100 ≤ resolvedAhead earlier d later ∧ executed.status = .rolledBack ∧
          (executeResolve lib g plans s planId operator).2.2 =
          (s.setStatus d.id .resolved).setStatus d.id .opened)) := by
  obtain ⟨⟨reason, htrust⟩, harmed⟩ := Gate.trusted hopens
  have happlied := applyResolveDiscrepancy_of_id (g := g) (s := s) hparam hid
  set result : PyVal := .dict (dictOf [("resolved", .str d.id)])
  set s' := s.setStatus d.id .resolved
  have hrollback : rollbackResolveDiscrepancy g result s' = _ :=
    rollbackResolveDiscrepancy_of_id hid
  have hcheck : (verifyDiscrepancyResolved lib result s').valid = true ↔
      resolvedAhead earlier d later < 100 :=
    verifyDiscrepancyResolved_valid.trans (resolved_listed hrows)
  have happly : (resolveAttempt lib g plan.params s).apply = .ok result := by
    simp [resolveAttempt, happlied]
  have hverify : (resolveAttempt lib g plan.params s).verify =
      .ok (verifyDiscrepancyResolved lib result s') := by
    simp [resolveAttempt, happlied, Except.map]
  have hundo : (resolveAttempt lib g plan.params s).rollback =
      .ok (.dict (dictOf [("reopened", .str d.id)])) := by
    simp [resolveAttempt, happlied, hrollback, bind, Except.bind]
  obtain ⟨executed, update, hverdict, hstatus⟩ : ∃ executed update,
      (resolveAttempt lib g plan.params s).verdict lib planId operator = .ok (executed, update) ∧
        executed.status = if (verifyDiscrepancyResolved lib result s').valid then .completed
        else .rolledBack :=
    verdict_of_checked htrust harmed happly hverify hundo
  refine ⟨executed, ?_, ?_⟩
  · simp only [executeResolve, hget, execute_of_executable hget hexec, hverdict]
  · simp only [executeResolve, hget, hexec, hopens, Bool.and_self, if_true, settled, happlied]
    by_cases hfew : resolvedAhead earlier d later < 100
    · rw [if_pos (hcheck.mpr hfew)] at hstatus ⊢
      exact .inl ⟨hfew, hstatus, rfl⟩
    · rw [if_neg (mt hcheck.mp hfew)] at hstatus ⊢
      exact .inr ⟨not_lt.mp hfew, hstatus, congrArg Prod.snd hrollback⟩

end

end Ops.Verify
