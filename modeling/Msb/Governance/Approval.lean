import Msb.Infra.Run
import Msb.Ledger.AuditChain

/-!
# Approvals and the guard

`governance/approval.py` and `governance/guard.py`: an item is submitted as `PENDING` and decided by
one `UPDATE` that asks for `PENDING` in its `WHERE` clause. `check_run` lets an action of a gated
kind through when the item that it names is `APPROVED`. It only reads the item: nothing marks an
approval as used.

* `checkRun_allowed_iff` — what lets an action through
* `run_singleUse` — what was decided stays; and runs in which two calls come past the gate with one
  approval
* `not_singleUse` — one approval, two actions
-/

namespace Governance

open Py Ledger Machine

/-! ## The queue -/

/-- `APPROVAL_KINDS` -/
def approvalKinds : List Str :=
  [lit "build", lit "combine", lit "promote_knowledge", lit "git_commit", lit "vault_write"]

/-- `STATUSES` -/
inductive ApprovalStatus where
  | pending
  | approved
  | rejected
  | cancelled
  deriving DecidableEq

def ApprovalStatus.text : ApprovalStatus → Str
  | .pending => lit "PENDING"
  | .approved => lit "APPROVED"
  | .rejected => lit "REJECTED"
  | .cancelled => lit "CANCELLED"

/-- A row of `approval_items`. -/
structure ApprovalRow where
  id : Str
  kind : Str
  title : Str
  payload : Str
  evidenceRefs : Str
  status : ApprovalStatus
  createdAt : Str
  decidedAt : Option Str
  decidedBy : Option Str
  reason : Option Str
  deriving DecidableEq

structure ApprovalItem where
  itemId : Str
  kind : Str
  title : Str
  payload : PyVal
  evidenceRefs : PyVal
  status : ApprovalStatus
  createdAt : Str
  decidedAt : Option Str
  decidedBy : Option Str
  reason : Option Str
  /-- Set on the call itself, where its audit record could not be written. -/
  auditFailed : Option Str

def approvalError (message : Str) : PyError := .raised (lit "ApprovalError") message

def idempotencyError (message : Str) : PyError := .raised (lit "IdempotencyError") message

/-- `_row_to_item` -/
def rowToItem (row : ApprovalRow) : Except PyError ApprovalItem := do
  let payload ← loads row.payload
  let evidenceRefs ← loads row.evidenceRefs
  .ok ⟨row.id, row.kind, row.title, payload, evidenceRefs, row.status, row.createdAt, row.decidedAt,
    row.decidedBy, row.reason, none⟩

/-- The row of an item. -/
def findRow (rows : List ApprovalRow) (itemId : Str) : Option ApprovalRow :=
  rows.find? fun row => row.id = itemId

/-- `get` -/
def getApproval (rows : List ApprovalRow) (itemId : Str) : Except PyError (Option ApprovalItem) :=
  match findRow rows itemId with
  | none => .ok none
  | some row => (rowToItem row).map some

/-- What happens around one call of the queue: the clock, a fresh id, a database error before the
commit, and the error of the audit chain after it. -/
structure QueueEnv where
  now : Str
  fresh : Str
  failure : Option PyError
  auditFailed : Option Str

structure SubmitCall where
  kind : Str
  title : Str
  payload : Option PyVal
  evidenceRefs : List Str
  itemId : Option Str

/-- `item_id or uuid.uuid4().hex[:12]` -/
def SubmitCall.iid (call : SubmitCall) (env : QueueEnv) : Str :=
  match call.itemId with
  | some itemId => if itemId = [] then env.fresh else itemId
  | none => env.fresh

/-- The item as it is read back after a commit. -/
def readBack (rows : List ApprovalRow) (itemId what : Str) (auditFailed : Option Str) :
    Except PyError ApprovalItem := do
  match ← getApproval rows itemId with
  | none =>
    .error (approvalError (lit "approval item " ++ itemId ++ lit " not readable after " ++ what))
  | some item => .ok { item with auditFailed := auditFailed }

/-- The row that `submit` inserts. -/
def insertItem (repr : Str → Str) (rows : List ApprovalRow) (call : SubmitCall) (env : QueueEnv) :
    Except PyError ApprovalRow := do
  raiseIf (!approvalKinds.contains call.kind)
    (.valueError (lit "unknown approval kind " ++ repr call.kind ++ lit "; allowed: " ++
      (lit ", ").intercalate approvalKinds))
  let payload ← dumps KeySort.insertion false plainStyle (call.payload.getD (.dict []))
  let refs ← dumps KeySort.insertion false plainStyle (.list (call.evidenceRefs.map .str))
  match env.failure with
  | some e => .error e
  | none => do
    raiseIf (rows.any fun row => row.id = call.iid env)
      (.raised (lit "IntegrityError") (lit "UNIQUE constraint failed: approval_items.id"))
    .ok ⟨call.iid env, call.kind, call.title, payload, refs, .pending, env.now, none, none, none⟩

/-- `submit`: the reply, and the table after the commit. -/
def submit (repr : Str → Str) (rows : List ApprovalRow) (call : SubmitCall) (env : QueueEnv) :
    Except PyError ApprovalItem × List ApprovalRow :=
  match insertItem repr rows call env with
  | .error e => (.error e, rows)
  | .ok row =>
    (readBack (rows ++ [row]) row.id (lit "create") env.auditFailed, rows ++ [row])

/-- `approve`, `reject` and `cancel`. -/
inductive Decision where
  | approve
  | reject
  | cancel
  deriving DecidableEq

def Decision.status : Decision → ApprovalStatus
  | .approve => .approved
  | .reject => .rejected
  | .cancel => .cancelled

structure DecideCall where
  itemId : Str
  operator : Str
  decision : Decision
  reason : Option Str

/-- `UPDATE … SET status=?, decided_at=?, decided_by=?, reason=?` on one row. -/
def DecideCall.set (call : DecideCall) (now : Str) (row : ApprovalRow) : ApprovalRow :=
  { row with
    status := call.decision.status
    decidedAt := some now
    decidedBy := some call.operator
    reason := call.reason }

/-- The `UPDATE` of `_decide`: the row that it changes, `PENDING` before. -/
def updateItem (rows : List ApprovalRow) (call : DecideCall) (env : QueueEnv) :
    Except PyError ApprovalRow := do
  raiseIf (call.decision = .reject ∧ call.reason.getD [] = [])
    (approvalError (lit "reject requires a reason"))
  match env.failure with
  | some e => .error e
  | none =>
    match findRow rows call.itemId with
    | none => .error (approvalError (lit "unknown approval item " ++ call.itemId))
    | some row => do
      raiseIf (row.status ≠ .pending)
        (idempotencyError (lit "approval " ++ call.itemId ++ lit " already " ++ row.status.text))
      .ok (call.set env.now row)

/-- The table with the row in the place of the one with its id. -/
def replaceRow (rows : List ApprovalRow) (row : ApprovalRow) : List ApprovalRow :=
  rows.map fun other => if other.id = row.id then row else other

/-- `approve`, `reject` or `cancel`: the reply, and the table after the commit. -/
def decideItem (rows : List ApprovalRow) (call : DecideCall) (env : QueueEnv) :
    Except PyError ApprovalItem × List ApprovalRow :=
  match updateItem rows call env with
  | .error e => (.error e, rows)
  | .ok row =>
    (readBack (replaceRow rows row) row.id (lit "decide") env.auditFailed, replaceRow rows row)

/-! ## The guard -/

structure GuardVerdict where
  allowed : Bool
  action : Str
  reason : Str
  detail : PyVal

inductive GovernorAction where
  | ok
  | slow
  | halt
  deriving DecidableEq

structure GovernorVerdict where
  action : GovernorAction
  reason : Str
  metrics : PyVal

structure CheckCall where
  action : Str
  kind : Option Str
  budgetUnits : List (Str × Int)
  approvalId : Option Str
  signal : Option (List (PyKey × PyVal))

/-- What the other brakes answer in one call: the switch, the ledger for a category, the governor
for a signal, and an error of the database or of the audit chain. -/
structure Brakes where
  armed : Bool
  spend : Str → Int → Except PyError Bool
  advise : List (PyKey × PyVal) → Except PyError GovernorVerdict
  readFailure : Option PyError
  auditFailure : Option PyError

/-- `_block` -/
def block (brakes : Brakes) (action reason : Str) (detail : PyVal) : Except PyError GuardVerdict :=
  match brakes.auditFailure with
  | some e => .error e
  | none => .ok ⟨false, action, reason, detail⟩

/-- The budget: the first category whose cap is hit. -/
def overspent (brakes : Brakes) : List (Str × Int) → Except PyError (Option Str)
  | [] => .ok none
  | (category, units) :: rest => do
    let spent ← brakes.spend category units
    if spent then overspent brakes rest else .ok (some category)

/-- `check_run` after the approval gate: the budget, then the governor. -/
def checkBudget (brakes : Brakes) (call : CheckCall) : Except PyError GuardVerdict := do
  match ← overspent brakes call.budgetUnits with
  | some category =>
    block brakes (lit "HALT") (lit "budget cap hit: " ++ category)
      (.dict [(.str (lit "action"), .str call.action), (.str (lit "category"), .str category)])
  | none =>
    match call.signal with
    | none => .ok ⟨true, lit "OK", lit "all brakes clear", .dict []⟩
    | some signal => do
      let verdict ← brakes.advise signal
      match verdict.action with
      | .halt => block brakes (lit "HALT") verdict.reason verdict.metrics
      | .slow => .ok ⟨true, lit "SLOW", verdict.reason, verdict.metrics⟩
      | .ok => .ok ⟨true, lit "OK", lit "all brakes clear", .dict []⟩

/-- `check_run` for a gated kind, by the status of the item. -/
def checkStatus (brakes : Brakes) (call : CheckCall) (approvalId : Str) (detail : PyVal) :
    ApprovalStatus → Except PyError GuardVerdict
  | .pending =>
    block brakes (lit "APPROVAL_PENDING")
      (lit "approval " ++ approvalId ++ lit " awaiting owner decision") detail
  | .approved => checkBudget brakes call
  | status =>
    block brakes (lit "APPROVAL_REQUIRED")
      (lit "approval " ++ approvalId ++ lit " not approved (" ++ status.text ++ lit ")") detail

/-- `check_run` for an action of a gated kind. -/
def checkApproval (repr : Str → Str) (rows : List ApprovalRow) (brakes : Brakes) (call : CheckCall)
    (kind : Str) : Except PyError GuardVerdict :=
  let detail : List (PyKey × PyVal) :=
    [(.str (lit "action"), .str call.action), (.str (lit "kind"), .str kind)]
  match call.approvalId with
  | none =>
    block brakes (lit "APPROVAL_REQUIRED") (kind ++ lit " requires owner approval before execution")
      (.dict detail)
  | some approvalId =>
    let detail := PyVal.dict (detail ++ [(.str (lit "approval_id"), .str approvalId)])
    match brakes.readFailure with
    | some e => .error e
    | none => do
      match (← getApproval rows approvalId).filter fun item => item.kind = kind with
      | none =>
        block brakes (lit "APPROVAL_REQUIRED")
          (lit "approval " ++ repr approvalId ++ lit " unknown or not for kind " ++ kind) detail
      | some item => checkStatus brakes call approvalId detail item.status

/-- `check_run` -/
def checkRun (repr : Str → Str) (rows : List ApprovalRow) (brakes : Brakes) (call : CheckCall) :
    Except PyError GuardVerdict :=
  if brakes.armed then
    block brakes (lit "HALT") (lit "kill switch armed — loop paused")
      (.dict [(.str (lit "action"), .str call.action)])
  else
    match call.kind.filter fun kind => approvalKinds.contains kind with
    | some kind => checkApproval repr rows brakes call kind
    | none => checkBudget brakes call

/-! ## The system -/

/-- What a run leaves: the table, the decisions that were made, the approvals with which a call of
`check_run` came past the approval gate, and those with which it let an action through. -/
structure ApprovalState where
  rows : List ApprovalRow
  decided : List ApprovalRow
  asked : List Str
  allowed : List Str

def ApprovalState.init : ApprovalState := ⟨[], [], [], []⟩

inductive ApprovalEvent where
  | submit (call : SubmitCall) (env : QueueEnv)
  | decide (call : DecideCall) (env : QueueEnv)
  | check (call : CheckCall) (brakes : Brakes)

/-- The budget and the governor let the call through. -/
def Brakes.Clear (brakes : Brakes) (call : CheckCall) : Prop :=
  overspent brakes call.budgetUnits = .ok none ∧
    ∀ signal, call.signal = some signal → ∃ verdict, brakes.advise signal = .ok verdict ∧
      verdict.action ≠ .halt

/-- The call is of no gated kind, or it names an approved item of its kind. -/
def Covered (rows : List ApprovalRow) (brakes : Brakes) (call : CheckCall) : Prop :=
  ∀ kind, call.kind = some kind → kind ∈ approvalKinds → ∃ approvalId row,
    call.approvalId = some approvalId ∧ brakes.readFailure = none ∧
    findRow rows approvalId = some row ∧ (∃ item, rowToItem row = .ok item) ∧ row.kind = kind ∧
    row.status = .approved

/-- `Covered`, as the gate decides it. -/
def coveredBy (rows : List ApprovalRow) (brakes : Brakes) (call : CheckCall) : Bool :=
  (call.kind.filter fun kind => approvalKinds.contains kind).all fun kind =>
    brakes.readFailure.isNone && call.approvalId.any fun approvalId =>
      (findRow rows approvalId).any fun row =>
        (rowToItem row).toOption.isSome && row.kind = kind && row.status = .approved

variable {rows : List ApprovalRow} {brakes : Brakes} {call : CheckCall} {row : ApprovalRow}
  {s : ApprovalState}

theorem coveredBy_iff :
    coveredBy rows brakes call = true ↔ Covered rows brakes call := by
  have hitem (row : ApprovalRow) :
      (rowToItem row).toOption.isSome = true ↔ ∃ item, rowToItem row = .ok item := by
    cases rowToItem row <;> simp [Except.toOption]
  unfold coveredBy Covered
  cases call.kind with
  | none => simp
  | some kind =>
    by_cases hgated : kind ∈ approvalKinds
    · cases call.approvalId with
      | none => simp [hgated]
      | some approvalId =>
        cases hrow : findRow rows approvalId <;> simp [hgated, hitem, hrow, and_assoc]
    · simp [hgated]

instance (rows : List ApprovalRow) (brakes : Brakes) (call : CheckCall) :
    Decidable (Covered rows brakes call) :=
  decidable_of_iff _ coveredBy_iff

/-- The approval with which a call comes past the gate: the switch is off, and a gated kind is
covered. -/
def askedBy (rows : List ApprovalRow) (brakes : Brakes) (call : CheckCall) : List Str :=
  if brakes.armed = false ∧ Covered rows brakes call then call.approvalId.toList else []

section

variable (repr : Str → Str)

/-- The approvals that a call has used: the one it names, when it is allowed. -/
def usedBy (rows : List ApprovalRow) (brakes : Brakes) (call : CheckCall) : List Str :=
  match checkRun repr rows brakes call with
  | .ok verdict => if verdict.allowed then call.approvalId.toList else []
  | .error _ => []

def approvalStep (s : ApprovalState) : ApprovalEvent → Option ApprovalState
  | .submit call env => some { s with rows := (submit repr s.rows call env).2 }
  | .decide call env =>
    some { s with
      rows := (decideItem s.rows call env).2
      decided := s.decided ++ (updateItem s.rows call env).toOption.toList }
  | .check call brakes =>
    some { s with
      asked := s.asked ++ askedBy s.rows brakes call
      allowed := s.allowed ++ usedBy repr s.rows brakes call }

end

/-- Every decision is still what the row says, and no item was decided twice. -/
structure Decided (s : ApprovalState) : Prop where
  final : ∀ row ∈ s.decided, findRow s.rows row.id = some row
  once : (s.decided.map ApprovalRow.id).Nodup

/-- **An approval authorizes at most one action**: what was decided stays, and no approved item let
two actions through. -/
structure SingleUse (s : ApprovalState) : Prop extends Decided s where
  spent : ∀ row ∈ s.rows, row.status = .approved → s.allowed.count row.id ≤ 1

/-- No two calls came past the gate with one approved item. -/
def AskedOnce (s : ApprovalState) : Prop :=
  ∀ row ∈ s.rows, row.status = .approved → s.asked.count row.id ≤ 1

variable {repr : Str → Str}

/-! ## What lets an action through -/

theorem block_allowed {action reason : Str} {detail : PyVal} {verdict : GuardVerdict}
    (h : block brakes action reason detail = .ok verdict) : verdict.allowed = false := by
  unfold block at h
  split at h
  · cases h
  · obtain rfl := Except.ok.inj h
    rfl

theorem checkBudget_allowed_iff :
    (∃ verdict, checkBudget brakes call = .ok verdict ∧ verdict.allowed = true) ↔
    brakes.Clear call := by
  unfold checkBudget Brakes.Clear
  cases hspend : overspent brakes call.budgetUnits with
  | error e => simp [bind, Except.bind]
  | ok category =>
    simp only [bind, Except.bind]
    cases category with
    | some category =>
      simp only [Except.ok.injEq, reduceCtorEq, false_and, iff_false, not_exists, not_and]
      intro verdict h
      rw [block_allowed h]
      decide
    | none =>
      cases hsignal : call.signal with
      | none => simp
      | some signal =>
        simp only [true_and, Option.some.injEq, forall_eq']
        cases hadvise : brakes.advise signal with
        | error e => simp
        | ok verdict =>
          simp only [Except.ok.injEq, exists_eq_left']
          cases haction : verdict.action with
          | ok => simp
          | slow => simp
          | halt =>
            simp only [ne_eq, not_true, iff_false, not_exists, not_and]
            intro v h
            rw [block_allowed h]
            decide

theorem rowToItem_fields {item : ApprovalItem} (h : rowToItem row = .ok item) :
    item.kind = row.kind ∧ item.status = row.status := by
  obtain ⟨payload, -, h⟩ := bind_eq_ok.mp h
  obtain ⟨refs, -, h⟩ := bind_eq_ok.mp h
  obtain rfl := Except.ok.inj h
  exact ⟨rfl, rfl⟩

theorem checkStatus_allowed_iff {brakes : Brakes} {call : CheckCall} {approvalId : Str}
    {detail : PyVal} {status : ApprovalStatus} :
    (∃ verdict, checkStatus brakes call approvalId detail status = .ok verdict ∧
      verdict.allowed = true) ↔ status = .approved ∧ brakes.Clear call := by
  cases status with
  | approved => simpa [checkStatus] using checkBudget_allowed_iff
  | pending => simpa [checkStatus] using fun verdict h => block_allowed h
  | rejected => simpa [checkStatus] using fun verdict h => block_allowed h
  | cancelled => simpa [checkStatus] using fun verdict h => block_allowed h

theorem checkApproval_allowed_iff {kind : Str} :
    (∃ verdict, checkApproval repr rows brakes call kind = .ok verdict ∧
      verdict.allowed = true) ↔ (∃ approvalId row, call.approvalId = some approvalId ∧
        brakes.readFailure = none ∧ findRow rows approvalId = some row ∧
        (∃ item, rowToItem row = .ok item) ∧ row.kind = kind ∧ row.status = .approved) ∧
      brakes.Clear call := by
  have hblock : ∀ {action reason : Str} {detail : PyVal},
      ¬ ∃ verdict, block brakes action reason detail = .ok verdict ∧ verdict.allowed = true := by
    rintro action reason detail ⟨verdict, h, hallowed⟩
    rw [block_allowed h] at hallowed
    cases hallowed
  unfold checkApproval
  cases hid : call.approvalId with
  | none => simp [hblock]
  | some approvalId =>
    cases hread : brakes.readFailure with
    | some e => simp
    | none =>
      simp only [Option.some.injEq, exists_and_left, exists_eq_left', true_and]
      cases hrow : findRow rows approvalId with
      | none => simp [getApproval, hrow, bind, Except.bind, hblock]
      | some row =>
        cases hitem : rowToItem row with
        | error e => simp [getApproval, hrow, hitem, bind, Except.bind, Except.map]
        | ok item =>
          obtain ⟨hkind, hstatus⟩ := rowToItem_fields hitem
          simp only [getApproval, hrow, hitem, Except.map, bind, Except.bind, Option.some.injEq,
            exists_eq_left', Option.filter_some, hkind, decide_eq_true_eq, Except.ok.injEq]
          by_cases hk : row.kind = kind
          · have hcheck := @checkStatus_allowed_iff brakes call approvalId (.dict
              ([(.str (lit "action"), .str call.action), (.str (lit "kind"), .str kind)] ++
                [(.str (lit "approval_id"), .str approvalId)])) item.status
            rw [hstatus] at hcheck
            simp only [hk, if_true, true_and, hstatus, hcheck, exists_eq']
          · simp [hk, hblock]

/-- **What lets an action through**: no brake stops it, and a gated kind is covered by an approved
item of its kind. Whether that item was used before is not asked. -/
theorem checkRun_allowed_iff {rows : List ApprovalRow} {brakes : Brakes} {call : CheckCall} :
    (∃ verdict, checkRun repr rows brakes call = .ok verdict ∧ verdict.allowed = true) ↔
      brakes.armed = false ∧ Covered rows brakes call ∧ brakes.Clear call := by
  unfold checkRun
  by_cases harmed : brakes.armed = true
  · simp only [harmed, if_true, Bool.true_eq_false, false_and, iff_false, not_exists, not_and]
    intro verdict h
    rw [block_allowed h]
    decide
  · simp only [harmed, Bool.false_eq_true, if_false] at harmed ⊢
    unfold Covered
    cases hkind : call.kind with
    | none => simpa [harmed] using checkBudget_allowed_iff
    | some kind =>
      have hfilter : (some kind).filter (fun kind => approvalKinds.contains kind)
          = if kind ∈ approvalKinds then some kind else none := by
        rw [Option.filter_some]
        simp only [List.contains_iff_mem]
      simp only [hfilter, Option.some.injEq, forall_eq', true_and]
      by_cases hgated : kind ∈ approvalKinds
      · simp only [hgated, if_true, true_imp_iff]
        exact checkApproval_allowed_iff
      · simp only [hgated, if_false, false_imp_iff, true_and]
        exact checkBudget_allowed_iff

/-! ## What a step does to the table -/

theorem findRow_id {itemId : Str} (h : findRow rows itemId = some row) : row.id = itemId := by
  simpa using List.find?_some h

/-- **A decision is made on a pending item**, and writes the row of that item. -/
theorem updateItem_eq_ok {call : DecideCall} {env : QueueEnv}
    (h : updateItem rows call env = .ok row) :
    ∃ old, findRow rows row.id = some old ∧ old.status = .pending ∧ row = call.set env.now old := by
  obtain ⟨_, -, h⟩ := bind_eq_ok.mp h
  cases hfail : env.failure with
  | some e =>
    rw [hfail] at h
    cases h
  | none =>
    rw [hfail] at h
    cases hold : findRow rows call.itemId with
    | none =>
      simp only [hold] at h
      cases h
    | some old =>
      simp only [hold] at h
      obtain ⟨_, hpending, h⟩ := bind_eq_ok.mp h
      obtain rfl := Except.ok.inj h
      refine ⟨old, ?_, not_not.mp (raiseIf_eq_ok.mp hpending), rfl⟩
      show findRow rows old.id = some old
      rw [findRow_id hold, hold]

theorem findRow_append {other : ApprovalRow} {itemId : Str} (h : findRow rows itemId = some other) :
    findRow (rows ++ [row]) itemId = some other := by
  rw [findRow, List.find?_append, show rows.find? (fun row => row.id = itemId) = some other from h]
  rfl

/-- The table has the new row under its id, and the others as they were. -/
theorem findRow_replace (itemId : Str) :
    findRow (replaceRow rows row) itemId
      = if itemId = row.id then (findRow rows row.id).map fun _ => row
        else findRow rows itemId := by
  induction rows with
  | nil => simp [findRow, replaceRow]
  | cons first rows ih =>
    simp only [findRow, replaceRow, List.map_cons, List.find?_cons] at ih ⊢
    by_cases hfirst : first.id = row.id
    · by_cases hid : itemId = row.id
      · simp [hfirst, hid]
      · have hne : row.id ≠ itemId := Ne.symm hid
        simpa [hfirst, hid, hne] using ih
    · by_cases hid : first.id = itemId
      · have hne : itemId ≠ row.id := fun h => hfirst (hid.trans h)
        simp [hid, hne]
      · simpa [hfirst, hid] using ih

/-! ## The invariant -/

/-- What a decision wrote is in the table, no longer pending. -/
structure ApprovalInv (s : ApprovalState) : Prop where
  final : ∀ row ∈ s.decided, findRow s.rows row.id = some row ∧ row.status ≠ .pending
  once : (s.decided.map ApprovalRow.id).Nodup

theorem approvalInv_init : ApprovalInv .init where
  final _ hrow := absurd hrow List.not_mem_nil
  once := List.nodup_nil

theorem ApprovalInv.submit {s : ApprovalState} (hs : ApprovalInv s) (call : SubmitCall)
    (env : QueueEnv) : ApprovalInv { s with rows := (submit repr s.rows call env).2 } := by
  unfold Governance.submit
  cases hrow : insertItem repr s.rows call env with
  | error e => exact hs
  | ok row =>
    refine ⟨fun other hother => ?_, hs.once⟩
    obtain ⟨hfound, hstatus⟩ := hs.final other hother
    exact ⟨findRow_append hfound, hstatus⟩

theorem ApprovalInv.decide (hs : ApprovalInv s) (call : DecideCall) (env : QueueEnv) :
    ApprovalInv { s with
      rows := (decideItem s.rows call env).2
      decided := s.decided ++ (updateItem s.rows call env).toOption.toList } := by
  unfold decideItem
  cases hrow : updateItem s.rows call env with
  | error e => simpa [Except.toOption] using hs
  | ok row =>
    obtain ⟨old, hold, hpending, hset⟩ := updateItem_eq_ok hrow
    have hid : ∀ other ∈ s.decided, other.id ≠ row.id := by
      intro other hother heq
      obtain ⟨hfound, hstatus⟩ := hs.final other hother
      rw [heq, hold] at hfound
      obtain rfl := Option.some.inj hfound
      exact hstatus hpending
    refine ⟨?_, ?_⟩
    · simp only [Except.toOption, Option.toList_some, List.forall_mem_append,
        List.forall_mem_singleton]
      constructor
      · intro other hother
        obtain ⟨hfound, hstatus⟩ := hs.final other hother
        exact ⟨by rw [findRow_replace, if_neg (hid other hother), hfound], hstatus⟩
      · refine ⟨by rw [findRow_replace, if_pos rfl, hold, Option.map_some], ?_⟩
        rw [hset]
        cases hd : call.decision <;> simp [DecideCall.set, hd, Decision.status]
    · simp only [Except.toOption, Option.toList_some, List.map_append, List.map_singleton]
      refine hs.once.append (List.nodup_singleton _) ?_
      simpa using hid

theorem ApprovalInv.step {t : ApprovalState} (hs : ApprovalInv s) {e : ApprovalEvent}
    (h : approvalStep repr s e = some t) : ApprovalInv t := by
  cases e with
  | submit call env =>
    obtain rfl := Option.some.inj h
    exact hs.submit call env
  | decide call env =>
    obtain rfl := Option.some.inj h
    exact hs.decide call env
  | check call brakes =>
    obtain rfl := Option.some.inj h
    exact ⟨hs.final, hs.once⟩

theorem ApprovalInv.decided (hs : ApprovalInv s) : Decided s where
  final row hrow := (hs.final row hrow).1
  once := hs.once

/-! ## What is used was asked for -/

/-- **A call that comes past the gate uses its approval**, unless the budget or the governor stops
it. -/
theorem usedBy_eq (rows : List ApprovalRow) (brakes : Brakes) (call : CheckCall) :
    usedBy repr rows brakes call = askedBy rows brakes call ∨
      (usedBy repr rows brakes call = [] ∧ ¬ brakes.Clear call) := by
  have hallowed := @checkRun_allowed_iff repr rows brakes call
  have hnone (h : ¬ (brakes.armed = false ∧ Covered rows brakes call ∧ brakes.Clear call)) :
      usedBy repr rows brakes call = [] := by
    unfold usedBy
    cases hcheck : checkRun repr rows brakes call with
    | error e => rfl
    | ok verdict => exact if_neg fun htrue => h (hallowed.mp ⟨verdict, hcheck, htrue⟩)
  by_cases hclear : brakes.Clear call
  · left
    unfold askedBy
    by_cases hopen : brakes.armed = false ∧ Covered rows brakes call
    · obtain ⟨verdict, hcheck, htrue⟩ := hallowed.mpr ⟨hopen.1, hopen.2, hclear⟩
      rw [if_pos hopen, usedBy, hcheck]
      exact if_pos htrue
    · rw [if_neg hopen]
      exact hnone fun h => hopen ⟨h.1, h.2.1⟩
  · exact Or.inr ⟨hnone fun h => hclear h.2.2, hclear⟩

theorem allowed_sublist {es : List ApprovalEvent} (h : run (approvalStep repr) .init es = some s) :
    s.allowed.Sublist s.asked := by
  refine run_invariant (I := fun s => s.allowed.Sublist s.asked) (fun t e u ht hu => ?_) .slnil h
  cases e with
  | submit call env =>
    obtain rfl := Option.some.inj hu
    exact ht
  | decide call env =>
    obtain rfl := Option.some.inj hu
    exact ht
  | check call brakes =>
    obtain rfl := Option.some.inj hu
    refine ht.append ?_
    rcases @usedBy_eq repr t.rows brakes call with hsame | ⟨hnone, -⟩
    · rw [hsame]
    · rw [hnone]
      exact List.nil_sublist _

/-- Where neither the budget nor the governor stops a call, every approval that is asked for is
used. -/
theorem allowed_eq_asked {es : List ApprovalEvent}
    (hclear : ∀ call brakes, ApprovalEvent.check call brakes ∈ es → brakes.Clear call)
    (h : run (approvalStep repr) .init es = some s) : s.allowed = s.asked := by
  refine run_invariant_mem (I := fun s => s.allowed = s.asked) (fun e he t u ht hu => ?_) rfl h
  cases e with
  | submit call env =>
    obtain rfl := Option.some.inj hu
    exact ht
  | decide call env =>
    obtain rfl := Option.some.inj hu
    exact ht
  | check call brakes =>
    obtain rfl := Option.some.inj hu
    rcases @usedBy_eq repr t.rows brakes call with hsame | ⟨-, hstopped⟩
    · exact congrArg₂ (· ++ ·) ht hsame
    · exact absurd (hclear call brakes he) hstopped

/-- **Every run**: what was decided stays, and no item is decided twice. Where no two calls come
past the gate with one approved item, it lets one action through at most; and only there, where
neither the budget nor the governor stops a call. -/
theorem run_singleUse {es : List ApprovalEvent} {s : ApprovalState}
    (h : run (approvalStep repr) .init es = some s) : Decided s ∧ (AskedOnce s → SingleUse s) ∧
      ((∀ call brakes, ApprovalEvent.check call brakes ∈ es → brakes.Clear call) →
        SingleUse s → AskedOnce s) := by
  have hdecided : Decided s :=
    (run_invariant (fun _ _ _ ht hu => ApprovalInv.step ht hu) approvalInv_init h).decided
  refine ⟨hdecided, fun hasked => ⟨hdecided, fun row hrow hstatus => ?_⟩, fun hclear hsingle => ?_⟩
  · exact ((allowed_sublist h).count_le row.id).trans (hasked row hrow hstatus)
  · intro row hrow hstatus
    rw [← allowed_eq_asked hclear h]
    exact hsingle.spent row hrow hstatus

/-! ### One approval -/

def quietEnv : QueueEnv := ⟨lit "2026-07-29T12:00:00+00:00", lit "0a1b2c3d4e5f", none, none⟩

def freeBrakes : Brakes where
  armed := false
  spend _ _ := .ok true
  advise _ := .ok ⟨.ok, [], .dict []⟩
  readFailure := none
  auditFailure := none

def buildCheck : CheckCall := ⟨lit "build", some (lit "build"), [], some (lit "item"), none⟩

/-- A call of no gated kind, that names an approval nobody asked for. -/
def readCheck : CheckCall := ⟨lit "read", none, [], some (lit "ghost"), none⟩

/-- An item is submitted, asked for before the decision, approved, and used once. -/
def approvedOnce : List ApprovalEvent :=
  [.submit ⟨lit "build", lit "stage 7", none, [], some (lit "item")⟩ quietEnv,
    .check buildCheck freeBrakes, .check readCheck freeBrakes, .check readCheck freeBrakes,
    .decide ⟨lit "item", lit "owner", .approve, none⟩ quietEnv, .check buildCheck freeBrakes]

/-- The table with its statuses, and the approvals that were asked for and used. -/
def ApprovalState.view (s : ApprovalState) : List (Str × ApprovalStatus) × List Str × List Str :=
  (s.rows.map fun row => (row.id, row.status), s.asked, s.allowed)

theorem run_singleUse_approvedOnce : ∃ s, run (approvalStep id) .init approvedOnce = some s ∧
    s.allowed = [lit "ghost", lit "ghost", lit "item"] ∧ AskedOnce s ∧ SingleUse s := by
  have hrun : (run (approvalStep id) .init approvedOnce).map ApprovalState.view
      = some ([(lit "item", .approved)], [lit "ghost", lit "ghost", lit "item"],
        [lit "ghost", lit "ghost", lit "item"]) := by decide +kernel
  obtain ⟨s, hs, hview⟩ := Option.map_eq_some_iff.mp hrun
  obtain ⟨hrows, hlists⟩ := Prod.mk.inj hview
  obtain ⟨hasked, hallowed⟩ := Prod.mk.inj hlists
  have honce : AskedOnce s := by
    intro row hrow _
    have hmem : (row.id, row.status) ∈ s.rows.map fun row => (row.id, row.status) :=
      List.mem_map_of_mem hrow
    rw [hrows, List.mem_singleton] at hmem
    rw [hasked, (Prod.mk.inj hmem).1]
    decide
  exact ⟨s, hs, hallowed, honce, (run_singleUse hs).2.1 honce⟩

/-- The second action goes through under the same approval. -/
theorem not_singleUse : ¬ ∀ (es : List ApprovalEvent) (s : ApprovalState),
    run (approvalStep id) .init es = some s → SingleUse s := by
  intro hall
  have hrun : (run (approvalStep id) .init (approvedOnce ++ [.check buildCheck freeBrakes])).map
      (fun s => (s.rows.map fun row => (row.id, row.status), s.allowed))
      = some ([(lit "item", .approved)], [lit "ghost", lit "ghost", lit "item", lit "item"]) := by
    decide +kernel
  obtain ⟨s, hs, hsame⟩ := Option.map_eq_some_iff.mp hrun
  obtain ⟨hrows, hallowed⟩ := Prod.mk.inj hsame
  obtain ⟨row, hrow, hid⟩ := List.mem_map.mp
    (hrows ▸ List.mem_singleton_self (lit "item", ApprovalStatus.approved))
  obtain ⟨hid, hstatus⟩ := Prod.mk.inj hid
  have hcount := (hall _ s hs).spent row hrow hstatus
  rw [hallowed, hid] at hcount
  revert hcount
  decide

end Governance
