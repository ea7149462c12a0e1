import Msb.Governance.Approval

/-!
# The budget ledger

`governance/budget.py`: one counter for each category, with the time at which its period began. A
spend reads the counter, and starts a new one where the period is over. `check_run` of
`governance/guard.py` spends category by category, and asks the governor last.

* `chargedRun_verdict` — `check_run` with the table of the ledger answers what `checkRun` does
* `refusal_is_free_iff` — which refusals leave every counter as it was
-/

namespace Governance

open Py

/-! ## The ledger -/

/-- The configuration. -/
structure BudgetLedger where
  limits : List (Str × Int)
  window : Int

/-- `self._limits.get(category, -1)` -/
def BudgetLedger.limit (ledger : BudgetLedger) (category : Str) : Int :=
  (ledger.limits.lookup category).getD (-1)

structure BudgetRow where
  periodStart : ℚ
  spent : Int
  deriving DecidableEq

/-- `budget_entries`. A category has one row at most: the rows of a category are deleted before one
is inserted. -/
abbrev BudgetTable := Str → Option BudgetRow

/-- The two readings of the clock in one call, and an error of the database. Two readings that are a
window apart are so close that their difference is exact. -/
structure SpendEnv where
  readAt : ℚ
  insertAt : ℚ
  failure : Option PyError

namespace BudgetLedger

variable (ledger : BudgetLedger)

/-- `_row`: the row of a category while its period lasts. -/
def row (t : BudgetTable) (now : ℚ) (category : Str) : Option BudgetRow :=
  (t category).filter fun row => ¬ ledger.window ≤ now - row.periodStart

/-- `spend` -/
def spend (env : SpendEnv) (category : Str) (amount : Int) (t : BudgetTable) :
    Except PyError Bool × BudgetTable :=
  if ledger.limit category = 0 then (.ok false, t)
  else if ledger.limit category < 0 then (.ok true, t)
  else if ledger.limit category < amount then (.ok false, t)
  else
    match env.failure with
    | some e => (.error e, t)
    | none =>
      match ledger.row t env.readAt category with
      | none => (.ok true, Function.update t category (some ⟨env.insertAt, amount⟩))
      | some row =>
        if ledger.limit category < row.spent + amount then (.ok false, t)
        else (.ok true, Function.update t category (some { row with spent := row.spent + amount }))

/-- `spent` of `state`. -/
def recordedAt (now : ℚ) (t : BudgetTable) (category : Str) : Int :=
  match ledger.row t now category with
  | none => 0
  | some row => row.spent

/-- The loop of `check_run` over the categories: the first one whose cap is hit. -/
def spendAll (envs : Str → SpendEnv) : List (Str × Int) → BudgetTable →
    Except PyError (Option Str) × BudgetTable
  | [], t => (.ok none, t)
  | (category, units) :: rest, t =>
    match ledger.spend (envs category) category units t with
    | (.error e, t') => (.error e, t')
    | (.ok false, t') => (.ok (some category), t')
    | (.ok true, t') => spendAll envs rest t'

end BudgetLedger

/-! ## The guard with the table -/

/-- The checks before the budget, by themselves. -/
def CheckCall.gate (call : CheckCall) : CheckCall := { call with budgetUnits := [], signal := none }

/-- `check_run` after the loop over the categories. -/
def afterBudget (brakes : Brakes) (call : CheckCall) : Except PyError (Option Str) →
    Except PyError GuardVerdict
  | .error e => .error e
  | .ok (some category) =>
    block brakes (lit "HALT") (lit "budget cap hit: " ++ category)
      (.dict [(.str (lit "action"), .str call.action), (.str (lit "category"), .str category)])
  | .ok none => checkBudget brakes { call with budgetUnits := [] }

/-- `check_run`: the verdict, and the table after it. -/
def chargedRun (repr : Str → Str) (rows : List ApprovalRow) (brakes : Brakes)
    (ledger : BudgetLedger)
    (envs : Str → SpendEnv) (call : CheckCall) (t : BudgetTable) :
    Except PyError GuardVerdict × BudgetTable :=
  match checkRun repr rows brakes call.gate with
  | .error e => (.error e, t)
  | .ok verdict =>
    if verdict.allowed then
      let (spent, t') := ledger.spendAll envs call.budgetUnits t
      (afterBudget brakes call spent, t')
    else (.ok verdict, t)

/-- The brakes with the answers that the ledger gives on a table. -/
def Brakes.withLedger (brakes : Brakes) (ledger : BudgetLedger) (envs : Str → SpendEnv)
    (t : BudgetTable) : Brakes :=
  { brakes with spend := fun category units => (ledger.spend (envs category) category units t).1 }

/-! ## What one spend does -/

variable {repr : Str → Str} {rows : List ApprovalRow} {brakes : Brakes} {ledger : BudgetLedger}
  {env : SpendEnv}
  {envs : Str → SpendEnv} {call : CheckCall} {t t' : BudgetTable} {category : Str}
  {amount : Int} {now : ℚ}

/-- The units fit under the cap. -/
structure BudgetLedger.Fits (ledger : BudgetLedger) (env : SpendEnv) (category : Str) (amount : Int)
    (t : BudgetTable) : Prop where
  single : amount ≤ ledger.limit category
  total : ∀ row ∈ ledger.row t env.readAt category, row.spent + amount ≤ ledger.limit category

/-- The ledger lets the units through. -/
def BudgetLedger.Grants (ledger : BudgetLedger) (env : SpendEnv) (category : Str) (amount : Int)
    (t : BudgetTable) : Prop :=
  ledger.limit category < 0 ∨
    0 < ledger.limit category ∧ ledger.Fits env category amount t ∧ env.failure = none

/-- The row that a granted spend leaves. -/
def BudgetLedger.charged (ledger : BudgetLedger) (env : SpendEnv) (category : Str) (amount : Int)
    (t : BudgetTable) : BudgetRow :=
  match ledger.row t env.readAt category with
  | none => ⟨env.insertAt, amount⟩
  | some row => { row with spent := row.spent + amount }

/-- **What a spend does**: it leaves the table as it is, or charges a row under the cap. -/
theorem spend_cases (ledger : BudgetLedger) (env : SpendEnv) (category : Str) (amount : Int)
    (t : BudgetTable) :
    (ledger.limit category < 0 ∧ ledger.spend env category amount t = (.ok true, t)) ∨
    (¬ ledger.Grants env category amount t ∧ ∃ answer, answer ≠ .ok true ∧
      ledger.spend env category amount t = (answer, t)) ∨
    (0 < ledger.limit category ∧ ledger.Fits env category amount t ∧ env.failure = none ∧
      ledger.spend env category amount t
        = (.ok true,
          Function.update t category (some (ledger.charged env category amount t)))) := by
  rcases lt_trichotomy (ledger.limit category) 0 with hneg | hzero | hpos
  · left
    exact ⟨hneg, by rw [BudgetLedger.spend, if_neg hneg.ne, if_pos hneg]⟩
  · right; left
    refine ⟨?_, .ok false, by simp, by rw [BudgetLedger.spend, if_pos hzero]⟩
    rintro (h | ⟨h, -, -⟩) <;> omega
  · right
    have hcap : ledger.Grants env category amount t → ledger.Fits env category amount t ∧
        env.failure = none := by
      rintro (h | ⟨-, hfits, hok⟩)
      · omega
      · exact ⟨hfits, hok⟩
    unfold BudgetLedger.spend BudgetLedger.charged
    rw [if_neg hpos.ne', if_neg (by omega)]
    by_cases hsingle : ledger.limit category < amount
    · left
      refine ⟨fun h => ?_, .ok false, by simp, by rw [if_pos hsingle]⟩
      exact absurd (hcap h).1.single (by omega)
    rw [if_neg hsingle]
    cases hfail : env.failure with
    | some e =>
      left
      refine ⟨fun h => ?_, .error e, by simp, rfl⟩
      rw [(hcap h).2] at hfail
      cases hfail
    | none =>
      cases hrow : ledger.row t env.readAt category with
      | none =>
        right
        exact ⟨hpos, ⟨by omega, by simp [hrow]⟩, rfl, rfl⟩
      | some row =>
        by_cases htotal : ledger.limit category < row.spent + amount
        · left
          refine ⟨fun h => ?_, .ok false, by simp, by simp [htotal]⟩
          exact absurd ((hcap h).1.total row hrow) (by omega)
        · right
          refine ⟨hpos, ⟨by omega, ?_⟩, rfl, by simp [htotal]⟩
          simp only [hrow, Option.mem_def, Option.some.injEq, forall_eq']
          omega

theorem spend_eq_true_iff :
    (ledger.spend env category amount t).1 = .ok true ↔ ledger.Grants env category amount t := by
  rcases spend_cases ledger env category amount t with ⟨hneg, h⟩ | ⟨hnot, answer, hne, h⟩
    | ⟨hpos, hfits, hok, h⟩
  · exact iff_of_true (by rw [h]) (.inl hneg)
  · exact iff_of_false (by rw [h]; exact hne) hnot
  · exact iff_of_true (by rw [h]) (.inr ⟨hpos, hfits, hok⟩)

/-- A spend touches its own category only. -/
theorem spend_other {other : Str} (h : other ≠ category) :
    (ledger.spend env category amount t).2 other = t other := by
  rcases spend_cases ledger env category amount t with ⟨-, heq⟩ | ⟨-, answer, -, heq⟩
    | ⟨-, -, -, heq⟩
  · rw [heq]
  · rw [heq]
  · rw [heq]
    exact Function.update_of_ne h _ _

/-- It reads its own category only. -/
theorem spend_congr (ledger : BudgetLedger) (env : SpendEnv) (amount : Int)
    (h : t category = t' category) :
    (ledger.spend env category amount t).1 = (ledger.spend env category amount t').1 ∧
      (ledger.Grants env category amount t ↔ ledger.Grants env category amount t') := by
  have hrow : ledger.row t env.readAt category = ledger.row t' env.readAt category := by
    rw [BudgetLedger.row, BudgetLedger.row, h]
  have hanswer : (ledger.spend env category amount t).1 =
      (ledger.spend env category amount t').1 := by
    unfold BudgetLedger.spend
    rw [hrow]
    split_ifs
    · rfl
    · rfl
    · rfl
    · cases env.failure with
      | some e => rfl
      | none =>
        cases ledger.row t' env.readAt category with
        | none => rfl
        | some row =>
          dsimp only
          split_ifs <;> rfl
  exact ⟨hanswer, by rw [← spend_eq_true_iff, ← spend_eq_true_iff, hanswer]⟩

/-! ## The loop -/

instance : Decidable (ledger.Fits env category amount t) :=
  decidable_of_iff (amount ≤ ledger.limit category ∧
      ∀ row, ledger.row t env.readAt category = some row →
      row.spent + amount ≤ ledger.limit category)
    ⟨fun ⟨hsingle, htotal⟩ => ⟨hsingle, htotal⟩, fun h => ⟨h.single, h.total⟩⟩

instance : Decidable (ledger.Grants env category amount t) := inferInstanceAs (Decidable (_ ∨ _))

/-- The categories that are granted before the first that is not. -/
def BudgetLedger.granted (ledger : BudgetLedger) (envs : Str → SpendEnv) (units : List (Str × Int))
    (t : BudgetTable) : List (Str × Int) :=
  units.takeWhile fun (category, amount) => ledger.Grants (envs category) category amount t

variable {units : List (Str × Int)}

theorem granted_congr (h : ∀ c ∈ units, t c.1 = t' c.1) :
    ledger.granted envs units t = ledger.granted envs units t' := by
  induction units with
  | nil => rfl
  | cons c units ih =>
    have htail := ih fun d hd => h d (List.mem_cons_of_mem _ hd)
    have hhead := (spend_congr ledger (envs c.1) c.2 (h c List.mem_cons_self)).2
    simp only [BudgetLedger.granted, List.takeWhile_cons, hhead] at htail ⊢
    rw [htail]

/-- **The table after the loop**: what was granted under a cap is charged, and nothing else is
touched. -/
theorem spendAll_table (ledger : BudgetLedger) (envs : Str → SpendEnv) (t : BudgetTable)
    (hnd : (units.map Prod.fst).Nodup) :
    (∀ category amount, (category, amount) ∈ ledger.granted envs units t →
      0 < ledger.limit category →
      (ledger.spendAll envs units t).2 category =
      some (ledger.charged (envs category) category amount t)) ∧
    ∀ category, (∀ amount, (category, amount) ∈ ledger.granted envs units t →
      ¬ 0 < ledger.limit category) → (ledger.spendAll envs units t).2 category = t category := by
  induction units generalizing t with
  | nil => exact ⟨fun _ _ h => absurd h List.not_mem_nil, fun _ _ => rfl⟩
  | cons c units ih =>
    obtain ⟨category, amount⟩ := c
    obtain ⟨hnew, hnd⟩ := List.nodup_cons.mp hnd
    have hne : ∀ c ∈ units, c.1 ≠ category := by
      intro c hc heq
      exact hnew (List.mem_map.mpr ⟨c, hc, heq⟩)
    rw [BudgetLedger.spendAll]
    rcases spend_cases ledger (envs category) category amount t with
      ⟨hneg, h⟩ | ⟨hnot, answer, hanswer, h⟩ | ⟨hpos, hfits, hok, h⟩
    · -- no cap: the table stays
      have hgrants : ledger.Grants (envs category) category amount t := .inl hneg
      simp only [h, BudgetLedger.granted, List.takeWhile_cons, decide_eq_true hgrants, if_true]
      obtain ⟨hcharged, hrest⟩ := ih hnd (t := t)
      constructor
      · intro c a hmem hcap
        rcases List.mem_cons.mp hmem with heq | hmem
        · obtain ⟨rfl, rfl⟩ := Prod.mk.inj heq
          omega
        · exact hcharged c a hmem hcap
      · intro c hc
        exact hrest c fun a ha => hc a (List.mem_cons_of_mem _ ha)
    · -- the loop ends here
      have hstop : (ledger.spendAll envs ((category, amount) :: units) t).2 = t := by
        rw [BudgetLedger.spendAll, h]
        cases answer with
        | error e => rfl
        | ok granted =>
          cases granted with
          | false => rfl
          | true => exact absurd rfl hanswer
      rw [BudgetLedger.spendAll] at hstop
      simp only [BudgetLedger.granted, List.takeWhile_cons, decide_eq_false hnot,
        Bool.false_eq_true, if_false,
        List.not_mem_nil, false_imp_iff, implies_true, true_and, forall_const]
      intro c
      rw [hstop]
    · have hgrants : ledger.Grants (envs category) category amount t := .inr ⟨hpos, hfits, hok⟩
      have hrows : ∀ c ∈ units, t c.1
          = Function.update t category
          (some (ledger.charged (envs category) category amount t)) c.1 := by
        intro c hc
        rw [Function.update_of_ne (hne c hc)]
      have hsame : ledger.granted envs units t = ledger.granted envs units
          (Function.update t category (some (ledger.charged (envs category) category amount t))) :=
          granted_congr hrows
      simp only [h, BudgetLedger.granted, List.takeWhile_cons, decide_eq_true hgrants, if_true]
        at hsame ⊢
      rw [hsame]
      obtain ⟨hcharged, hrest⟩ :=
        ih hnd (t :=
          Function.update t category (some (ledger.charged (envs category) category amount t)))
      constructor
      · intro c a hmem hcap
        rcases List.mem_cons.mp hmem with heq | hmem
        · obtain ⟨rfl, rfl⟩ := Prod.mk.inj heq
          -- the rest of the loop does not come back to it
          rw [hrest c fun a' ha' => absurd rfl (hne _ (List.takeWhile_subset _ ha')),
            Function.update_self]
        · rw [hcharged c a hmem hcap]
          have hc := hne _ (List.takeWhile_subset _ hmem)
          simp only [BudgetLedger.charged, BudgetLedger.row, Function.update_of_ne hc]
      · intro c hc
        have hother : c ≠ category := by
          rintro rfl
          exact hc amount List.mem_cons_self hpos
        rw [hrest c fun a ha => hc a (List.mem_cons_of_mem _ ha), Function.update_of_ne hother]

/-- The loop answers what the loop of `checkRun` does with the answers on the table before it: the
categories are keys of a dict. -/
theorem spendAll_answer (brakes : Brakes) (hnd : (units.map Prod.fst).Nodup)
    (h : ∀ c ∈ units, t' c.1 = t c.1) :
    (ledger.spendAll envs units t').1 = overspent (brakes.withLedger ledger envs t) units := by
  induction units generalizing t' with
  | nil => rfl
  | cons c units ih =>
    obtain ⟨category, amount⟩ := c
    obtain ⟨hnew, hnd⟩ := List.nodup_cons.mp hnd
    have hhead :=
      (spend_congr ledger (envs category) amount (h (category, amount) List.mem_cons_self)).1
    have hrest : ∀ c ∈ units, (ledger.spend (envs category) category amount t').2 c.1 = t c.1 := by
      intro c hc
      have hne : c.1 ≠ category := fun heq => hnew (List.mem_map.mpr ⟨c, hc, heq⟩)
      rw [spend_other hne, h c (List.mem_cons_of_mem _ hc)]
    have htail := ih hnd hrest
    rw [BudgetLedger.spendAll, overspent]
    show _ = (ledger.spend (envs category) category amount t).1 >>= _
    rw [← hhead]
    cases hspend : ledger.spend (envs category) category amount t' with
    | mk answer after =>
      rw [hspend] at htail
      cases answer with
      | error e => rfl
      | ok granted =>
        cases granted with
        | false => rfl
        | true => exact htail

/-! ## The guard -/

/-- What follows the checks before the budget. -/
def Brakes.andThen (brakes : Brakes) (call : CheckCall) (gate : Except PyError GuardVerdict) :
    Except PyError GuardVerdict :=
  gate.bind fun verdict => if verdict.allowed then checkBudget brakes call else .ok verdict

section

variable {other : Brakes} (harmed : other.armed = brakes.armed)
  (hread : other.readFailure = brakes.readFailure)
  (haudit : other.auditFailure = brakes.auditFailure)

include haudit

theorem block_gate (action reason : Str) (detail : PyVal) :
    block brakes action reason detail = brakes.andThen call (block other action reason detail) := by
  unfold block Brakes.andThen
  rw [haudit]
  cases brakes.auditFailure with
  | some e => rfl
  | none => rfl

theorem checkStatus_gate (approvalId : Str) (detail : PyVal) (status : ApprovalStatus) :
    checkStatus brakes call approvalId detail status
      = brakes.andThen call (checkStatus other call.gate approvalId detail status) := by
  cases status with
  | approved => rfl
  | pending => exact block_gate haudit _ _ _
  | rejected => exact block_gate haudit _ _ _
  | cancelled => exact block_gate haudit _ _ _

include hread

theorem checkApproval_gate (kind : Str) :
    checkApproval repr rows brakes call kind = brakes.andThen call
    (checkApproval repr rows other call.gate kind) := by
  obtain ⟨action, callKind, budgetUnits, approvalId, signal⟩ := call
  unfold checkApproval CheckCall.gate
  cases approvalId with
  | none => exact block_gate haudit _ _ _
  | some approvalId =>
    dsimp only
    rw [hread]
    cases brakes.readFailure with
    | some e => rfl
    | none =>
      cases hitem : getApproval rows approvalId with
      | error e => rfl
      | ok item =>
        simp only [bind, Except.bind]
        cases item.filter fun item => item.kind = kind with
        | none => exact block_gate haudit _ _ _
        | some item => exact checkStatus_gate haudit _ _ _

include harmed

/-- The checks before the budget do not look at the ledger or the governor. -/
theorem checkRun_gate :
    checkRun repr rows brakes call = brakes.andThen call (checkRun repr rows other call.gate) := by
  unfold checkRun
  rw [harmed]
  by_cases h : brakes.armed = true
  · rw [if_pos h, if_pos h]
    exact block_gate haudit _ _ _
  · rw [if_neg h, if_neg h]
    rw [show call.gate.kind = call.kind from rfl]
    cases call.kind.filter fun kind => approvalKinds.contains kind with
    | none => rfl
    | some kind => exact checkApproval_gate hread haudit kind

end

/-- **`check_run` with the table of the ledger answers what `checkRun` does**, with the ledger as
the brake. -/
theorem chargedRun_verdict (hnd : (call.budgetUnits.map Prod.fst).Nodup) :
    (chargedRun repr rows brakes ledger envs call t).1 = checkRun repr rows
    (brakes.withLedger ledger envs t) call := by
  rw [@checkRun_gate repr rows (brakes.withLedger ledger envs t) call brakes rfl rfl rfl,
    chargedRun, Brakes.andThen]
  cases checkRun repr rows brakes call.gate with
  | error e => rfl
  | ok verdict =>
    simp only [Except.bind]
    by_cases hallowed : verdict.allowed = true
    · rw [if_pos hallowed, if_pos hallowed]
      show afterBudget brakes call (ledger.spendAll envs call.budgetUnits t).1 = _
      rw [spendAll_answer brakes hnd fun _ _ => rfl, checkBudget]
      cases overspent (brakes.withLedger ledger envs t) call.budgetUnits with
      | error e => rfl
      | ok category =>
        cases category with
        | some category => rfl
        | none => rfl
    · rw [if_neg hallowed, if_neg hallowed]

/-- The table after `check_run`: the loop runs where the kill switch and the approval gate let the
call through. -/
theorem chargedRun_table {verdict : GuardVerdict}
    (h : (chargedRun repr rows brakes ledger envs call t).1 = .ok verdict) :
    (brakes.armed = false ∧ Covered rows brakes call →
      (chargedRun repr rows brakes ledger envs call t).2 =
      (ledger.spendAll envs call.budgetUnits t).2) ∧
    (¬ (brakes.armed = false ∧ Covered rows brakes call) →
      (chargedRun repr rows brakes ledger envs call t).2 = t) := by
  have hopen : (∃ verdict, checkRun repr rows brakes call.gate = .ok verdict ∧
    verdict.allowed = true) ↔ brakes.armed = false ∧ Covered rows brakes call := by
    rw [checkRun_allowed_iff]
    refine and_congr_right fun _ => and_iff_left ⟨rfl, fun signal hsignal => ?_⟩
    cases hsignal
  rw [chargedRun] at h ⊢
  cases hgate : checkRun repr rows brakes call.gate with
  | error e =>
    rw [hgate] at h
    cases h
  | ok gate =>
    rw [hgate] at hopen
    simp only [Except.ok.injEq, exists_eq_left'] at hopen
    rw [← hopen]
    by_cases hallowed : gate.allowed = true
    · simp [hallowed]
    · simp [hallowed]

/-! ## What a refusal costs -/

/-- The spend is on record at a time: the category has a cap, units are asked for, and the period
that they are charged to lasts. -/
structure BudgetLedger.Costs (ledger : BudgetLedger) (env : SpendEnv) (category : Str)
    (amount : Int) (t : BudgetTable) (now : ℚ) : Prop where
  capped : 0 < ledger.limit category
  units : amount ≠ 0
  lasts : now - (ledger.charged env category amount t).periodStart < ledger.window

theorem recordedAt_charged (hread : env.readAt ≤ now) (hcap : 0 < ledger.limit category)
    (h : t' category = some (ledger.charged env category amount t)) :
    ledger.recordedAt now t' category = ledger.recordedAt now t category
      ↔ ¬ ledger.Costs env category amount t now := by
  have hcosts : ledger.Costs env category amount t now
      ↔ amount ≠ 0 ∧ now - (ledger.charged env category amount t).periodStart < ledger.window :=
    ⟨fun h => ⟨h.units, h.lasts⟩, fun h => ⟨hcap, h.1, h.2⟩⟩
  rw [hcosts, BudgetLedger.recordedAt, BudgetLedger.recordedAt, BudgetLedger.row,
    BudgetLedger.row, h]
  unfold BudgetLedger.charged BudgetLedger.row
  cases hrow : t category with
  | none =>
    simp only [Option.filter_none, Option.filter_some]
    by_cases hlive : (ledger.window : ℚ) ≤ now - env.insertAt
    · simp [hlive, hlive.not_gt]
    · simp [hlive, lt_of_not_ge hlive]
  | some old =>
    by_cases hread' : (ledger.window : ℚ) ≤ env.readAt - old.periodStart
    · -- the period was over: the counter starts again
      have hover : (ledger.window : ℚ) ≤ now - old.periodStart := by linarith
      simp only [Option.filter_some, hread', hover, not_true, decide_false,
        Bool.false_eq_true, if_false]
      by_cases hlive : (ledger.window : ℚ) ≤ now - env.insertAt
      · simp [hlive, hlive.not_gt]
      · simp [hlive, lt_of_not_ge hlive]
    · simp only [Option.filter_some, hread', not_false_eq_true, decide_true, if_true]
      by_cases hlive : (ledger.window : ℚ) ≤ now - old.periodStart
      · simp [hlive, hlive.not_gt]
      · simp [hlive, lt_of_not_ge hlive]

/-- **Which refusals leave every counter as it was**: those of the kill switch and of the approval
gate, and those where nothing is on record for the categories before the failing check. -/
theorem refusal_is_free_iff {action reason : Str} {detail : PyVal}
    (hnd : (call.budgetUnits.map Prod.fst).Nodup)
    (hclock : ∀ category, (envs category).readAt ≤ now)
    (h : (chargedRun repr rows brakes ledger envs call t).1 = .ok ⟨false, action, reason, detail⟩) :
    (∀ category, ledger.recordedAt now (chargedRun repr rows brakes ledger envs call t).2 category
        = ledger.recordedAt now t category)
      ↔ ¬ (brakes.armed = false ∧ Covered rows brakes call) ∨
        ∀ c ∈ ledger.granted envs call.budgetUnits t, ¬ ledger.Costs (envs c.1) c.1 c.2 t now := by
  obtain ⟨hspent, hstopped⟩ := chargedRun_table h
  by_cases hopen : brakes.armed = false ∧ Covered rows brakes call
  · obtain ⟨hcharged, hrest⟩ := spendAll_table ledger envs t hnd
    rw [hspent hopen]
    constructor
    · intro hsame
      refine .inr fun c hc hcosts => ?_
      have hrow := hcharged c.1 c.2 hc hcosts.capped
      exact (recordedAt_charged (hclock c.1) hcosts.capped hrow).mp (hsame c.1) hcosts
    · rintro (hclosed | hfree) category
      · exact absurd hopen hclosed
      by_cases hc : ∃ amount, (category, amount) ∈ ledger.granted envs call.budgetUnits t ∧
        0 < ledger.limit category
      · obtain ⟨amount, hmem, hcap⟩ := hc
        exact (recordedAt_charged (hclock category) hcap (hcharged category amount hmem hcap)).mpr
          (hfree (category, amount) hmem)
      · have hkept := hrest category fun amount hmem hcap => hc ⟨amount, hmem, hcap⟩
        rw [BudgetLedger.recordedAt, BudgetLedger.recordedAt, BudgetLedger.row,
          BudgetLedger.row, hkept]
  · rw [hstopped hopen]
    exact iff_of_true (fun _ => rfl) (.inl hopen)

/-! ## A refusal that costs -/

/-- Two categories, the second over its cap. -/
def twoCaps : BudgetLedger := ⟨[(lit "research_calls", 10), (lit "tokens", 2)], 86400⟩

def twoUnits : CheckCall :=
  ⟨lit "research", none, [(lit "research_calls", 1), (lit "tokens", 5)], none, none⟩

def openBrakes : Brakes := ⟨false, fun _ _ => .ok true, fun _ => .ok ⟨.ok, [], .none⟩, none, none⟩

/-- The verdict on the two categories, the first of which is charged on the way. -/
theorem chargedRun_verdict_twoCaps :
    (chargedRun id [] openBrakes twoCaps (fun _ => ⟨0, 0, none⟩) twoUnits fun _ => none).1 =
    checkRun id [] (openBrakes.withLedger twoCaps (fun _ => ⟨0, 0, none⟩) fun _ => none) twoUnits :=
  chargedRun_verdict (by decide)

/-- The first category is charged, and the second stops the action. -/
theorem refusal_charged :
    ¬ ∀ (call : CheckCall) (t : BudgetTable) (verdict : GuardVerdict),
      (call.budgetUnits.map Prod.fst).Nodup →
      (chargedRun id [] openBrakes twoCaps (fun _ => ⟨0, 0, none⟩) call t).1 = .ok verdict →
        verdict.allowed = false →
      ∀ category,
        twoCaps.recordedAt 1 (chargedRun id [] openBrakes twoCaps (fun _ => ⟨0, 0, none⟩) call t).2
        category = twoCaps.recordedAt 1 t category := by
  intro h
  have hspent := h twoUnits (fun _ => none) _ (by decide) rfl (by decide +kernel)
    (lit "research_calls")
  revert hspent
  decide +kernel

/-- The tokens stop the action before the call is charged. -/
theorem refusal_is_free_over_cap :
    twoCaps.granted (fun _ => ⟨0, 0, none⟩) [(lit "tokens", 5), (lit "research_calls", 1)]
        (fun _ => none) = [] ∧
      ∀ category, twoCaps.recordedAt 1 (chargedRun id [] openBrakes twoCaps (fun _ => ⟨0, 0, none⟩)
          { twoUnits with budgetUnits := [(lit "tokens", 5), (lit "research_calls", 1)] }
          fun _ => none).2 category
        = twoCaps.recordedAt 1 (fun _ => none) category := by
  have hnone : twoCaps.granted (fun _ => ⟨0, 0, none⟩)
      [(lit "tokens", 5), (lit "research_calls", 1)] (fun _ => none) = [] := by decide +kernel
  refine ⟨hnone, (refusal_is_free_iff (by decide) (fun _ => by decide +kernel) rfl).mpr (.inr ?_)⟩
  show ∀ c ∈ twoCaps.granted _ [(lit "tokens", 5), (lit "research_calls", 1)] _, _
  rw [hnone]
  exact fun c hc => absurd hc List.not_mem_nil

end Governance
