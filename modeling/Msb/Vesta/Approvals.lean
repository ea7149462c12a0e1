import Msb.Ledger.ChainAnchor

/-!
# The approval stores of Vesta

`vesta/approvals.py` and `VestaShellApprovalStore` of `vesta/shell.py`: one table of contracts for
file writes and one for shell commands, with the same state machine. A row is inserted as `PENDING`.
Each decision is one transaction under the write lock, and it looks at the status that it finds.

* `ApprovalStore.approve_spec` — what an approval has checked
* `Moves` — what a transaction does to a table
-/

namespace Vesta

open Py Ledger

/-! ## The tables -/

inductive ApprovalStatus where
  | pending
  | approved
  | expired
  | rejected
  | void
  deriving DecidableEq

/-- What an approval of a file write is for. -/
structure WriteContract where
  targetPath : Str
  payloadEvidenceId : Str
  payloadSha256 : Str
  expectedSha256 : Option Str
  deriving DecidableEq

/-- What an approval of a command is for. -/
structure ShellContract where
  commandJson : Str
  commandSha256 : Str
  deriving DecidableEq

inductive Kind where
  | write
  | shell
  deriving DecidableEq

/-- The columns that the tables do not share. -/
def Contract : Kind → Type
  | .write => WriteContract
  | .shell => ShellContract

/-- A row. -/
structure Approval (C : Type) where
  approvalId : Str
  taskId : Str
  bindId : Str
  contract : C
  policyVersion : Str
  expiresAt : Str
  status : ApprovalStatus
  createdAt : Str
  decidedAt : Option Str := none
  decidedBy : Option Str := none
  reason : Option Str := none

/-- The error class of a store, and its texts. -/
structure ApprovalStore where
  error : Str → PyError
  duplicate : Str
  unknown : Str
  alreadyDecided : Str
  invalidExpiration : Str
  expired : Str
  notPending : Str
  notApproved : Str

def approvalError (message : Str) : PyError := .raised (lit "ApprovalError") message

def shellCapabilityError (message : Str) : PyError := .raised (lit "ShellCapabilityError") message

/-- `VestaApprovalStore` -/
def vestaApprovalStore : ApprovalStore where
  error := approvalError
  duplicate := lit "approval already exists for this bind"
  unknown := lit "unknown approval"
  alreadyDecided := lit "approval is already decided"
  invalidExpiration := lit "approval has invalid expiration"
  expired := lit "approval expired"
  notPending := lit "unknown or already decided approval"
  notApproved := lit "approval is not in an APPROVED state"

/-- `VestaShellApprovalStore` -/
def vestaShellApprovalStore : ApprovalStore where
  error := shellCapabilityError
  duplicate := lit "shell approval already exists for this bind"
  unknown := lit "unknown shell approval"
  alreadyDecided := lit "shell approval is already decided"
  invalidExpiration := lit "shell approval has invalid expiration"
  expired := lit "shell approval expired"
  notPending := lit "unknown or already decided shell approval"
  notApproved := lit "shell approval is not in an APPROVED state"

def Kind.store : Kind → ApprovalStore
  | .write => vestaApprovalStore
  | .shell => vestaShellApprovalStore

/-! ## Transactions -/

section

variable {C : Type} (store : ApprovalStore) (rows : List (Approval C)) (approvalId : Str)

/-- `SELECT ... WHERE approval_id=?` -/
def findApproval : Option (Approval C) := rows.find? fun row => row.approvalId = approvalId

/-- `UPDATE ... WHERE approval_id=?` -/
def updateApproval (f : Approval C → Approval C) : List (Approval C) :=
  rows.map fun row => if row.approvalId = approvalId then f row else row

namespace ApprovalStore

/-- The `INSERT` of `submit`. -/
def insert (row : Approval C) : Except PyError (List (Approval C)) := do
  raiseIf (rows.any fun r => r.approvalId = row.approvalId || r.bindId = row.bindId)
    (store.error store.duplicate)
  .ok (rows ++ [row])

/-- `get` -/
def get : Except PyError (Approval C) :=
  match findApproval rows approvalId with
  | none => .error (store.error store.unknown)
  | some row => .ok row

/-- The transaction of `approve`: whether the approval has expired, and the table. -/
def approve (fromisoformat : IsoParser) (now : Int) (decidedAt operator : Str) :
    Except PyError (Bool × List (Approval C)) := do
  match findApproval rows approvalId with
  | none => .error (store.error store.unknown)
  | some row =>
    raiseIf (row.status ≠ .pending) (store.error store.alreadyDecided)
    match fromisoformat (replaceZ row.expiresAt) with
    | none => .error (store.error store.invalidExpiration)
    | some expires =>
      -- a time with a zone does not compare with one without
      raiseIf (!expires.aware) .typeError
      if expires.micros ≤ now then
        .ok (true, updateApproval rows approvalId fun row =>
          { row with
            status := .expired
            decidedAt := some decidedAt
            reason := some (lit "approval expired") })
      else
        .ok (false, updateApproval rows approvalId fun row =>
          if row.status = .pending then
            { row with
              status := .approved
              decidedAt := some decidedAt
              decidedBy := some operator }
          else row)

/-- An `UPDATE` of the rows in one status, which must hit one row. -/
def updateFrom (source : ApprovalStatus) (refusal : Str) (f : Approval C → Approval C) :
    Except PyError (List (Approval C)) := do
  let hit := rows.filter fun row => row.approvalId = approvalId && row.status = source
  raiseIf (hit.length ≠ 1) (store.error refusal)
  .ok (updateApproval rows approvalId fun row => if row.status = source then f row else row)

/-- The transaction of `reject`. -/
def reject (decidedAt operator reason : Str) : Except PyError (List (Approval C)) :=
  store.updateFrom rows approvalId .pending store.notPending fun row =>
    { row with
      status := .rejected
      decidedAt := some decidedAt
      decidedBy := some operator
      reason := some reason }

/-- The transaction of `void`. -/
def void (decidedAt reason : Str) : Except PyError (List (Approval C)) :=
  store.updateFrom rows approvalId .approved store.notApproved fun row =>
    { row with status := .void, decidedAt := some decidedAt, reason := some reason }

end ApprovalStore

end

/-! ## What a transaction does -/

variable {C : Type} {store : ApprovalStore} {rows rows' : List (Approval C)} {approvalId : Str}

/-- The columns that no transaction writes. -/
structure Approval.Same (a b : Approval C) : Prop where
  approvalId : a.approvalId = b.approvalId
  taskId : a.taskId = b.taskId
  bindId : a.bindId = b.bindId
  contract : a.contract = b.contract
  expiresAt : a.expiresAt = b.expiresAt

theorem Approval.Same.refl (a : Approval C) : a.Same a := ⟨rfl, rfl, rfl, rfl, rfl⟩

theorem Approval.Same.trans {a b c : Approval C} (h : a.Same b) (h' : b.Same c) : a.Same c :=
  ⟨h.approvalId.trans h'.approvalId, h.taskId.trans h'.taskId, h.bindId.trans h'.bindId,
    h.contract.trans h'.contract, h.expiresAt.trans h'.expiresAt⟩

theorem approvalId_of_find {row : Approval C} (h : findApproval rows approvalId = some row) :
    row.approvalId = approvalId := by
  unfold findApproval at h
  simpa using List.find?_some h

/-- The row of an id goes from one status to another, and no other row changes. -/
structure Moves (rows rows' : List (Approval C)) (approvalId : Str) (source target : ApprovalStatus)
    : Prop where
  ids : rows'.map Approval.approvalId = rows.map Approval.approvalId
  other : ∀ id, id ≠ approvalId → findApproval rows' id = findApproval rows id
  this : ∃ row row', findApproval rows approvalId = some row ∧ findApproval rows' approvalId =
    some row' ∧ row.status = source ∧ row'.status = target ∧ row'.Same row

section

variable {f : Approval C → Approval C}

theorem map_approvalId_update (hf : ∀ row, (f row).approvalId = row.approvalId) :
    (updateApproval rows approvalId f).map Approval.approvalId = rows.map Approval.approvalId := by
  unfold updateApproval
  rw [List.map_map]
  refine List.map_congr_left fun row _ => ?_
  simp only [Function.comp_apply]
  split
  · exact hf row
  · rfl

theorem find_update (hf : ∀ row, (f row).approvalId = row.approvalId) (id : Str) :
    findApproval (updateApproval rows approvalId f) id =
      if id = approvalId then (findApproval rows id).map f else findApproval rows id := by
  have hid : ∀ row : Approval C, (if row.approvalId = approvalId then f row else row).approvalId =
      row.approvalId := by
    intro row
    split
    · exact hf row
    · rfl
  unfold findApproval updateApproval
  rw [List.find?_map]
  simp only [Function.comp_def, hid]
  by_cases h : id = approvalId
  · subst h
    rw [if_pos rfl]
    refine Option.map_congr fun row hrow => ?_
    rw [if_pos (by simpa using List.find?_some hrow)]
  · rw [if_neg h]
    cases hfind : rows.find? fun row => row.approvalId = id with
    | none => rfl
    | some row =>
      have hrow : row.approvalId = id := by simpa using List.find?_some hfind
      rw [Option.map_some, if_neg (hrow ▸ h)]

/-- An update of the row of an id. -/
theorem moves_update {row : Approval C} (hid : ∀ row, (f row).approvalId = row.approvalId)
    (hfind : findApproval rows approvalId = some row) (hsame : (f row).Same row) :
    Moves rows (updateApproval rows approvalId f) approvalId row.status (f row).status := by
  refine ⟨map_approvalId_update hid, fun id hne => ?_, row, f row, hfind, ?_, rfl, rfl, hsame⟩
  · rw [find_update hid, if_neg hne]
  · rw [find_update hid, if_pos rfl, hfind]
    rfl

/-- An update that asks for a status. -/
theorem moves_guarded {source target : ApprovalStatus} {row : Approval C}
    (hsame : ∀ row, (f row).Same row)
    (htarget : ∀ row, (f row).status = target) (hfind : findApproval rows approvalId = some row)
    (hstatus : row.status = source) :
    Moves rows (updateApproval rows approvalId fun row => if row.status = source then f row
      else row) approvalId source target := by
  have hmoves := moves_update (f := fun row => if row.status = source then f row else row)
    (fun row => ?_) hfind ?_
  · rwa [if_pos hstatus, htarget, hstatus] at hmoves
  · split
    · exact (hsame row).approvalId
    · rfl
  · rw [if_pos hstatus]
    exact hsame row

end

theorem find_of_mem {row : Approval C} (hnodup : (rows.map Approval.approvalId).Nodup)
    (h : row ∈ rows) : findApproval rows row.approvalId = some row := by
  induction rows with
  | nil => cases h
  | cons r rows ih =>
    obtain ⟨hr, hrows⟩ := List.nodup_cons.mp hnodup
    unfold findApproval
    rcases List.mem_cons.mp h with rfl | h
    · exact List.find?_cons_of_pos (by simp)
    · have hne : r.approvalId ≠ row.approvalId := by
        intro he
        exact hr (he ▸ List.mem_map_of_mem h)
      rw [List.find?_cons_of_neg (by simpa using hne)]
      exact ih hrows h

namespace ApprovalStore

/-- **An approval has checked that the row is pending, and the time.** -/
theorem approve_spec {fromisoformat : IsoParser} {now : Int} {decidedAt operator : Str}
    {expired : Bool} (h : store.approve rows approvalId fromisoformat now decidedAt operator =
      .ok (expired, rows')) :
    Moves rows rows' approvalId .pending (if expired then .expired else .approved) ∧
      ∃ row expires, findApproval rows approvalId = some row ∧ row.status = .pending ∧
        fromisoformat (replaceZ row.expiresAt) = some expires ∧ expires.aware = true ∧
        (expired = true ↔ expires.micros ≤ now) := by
  unfold approve at h
  split at h
  · cases h
  next row hfind =>
  obtain ⟨_, hpending, h⟩ := bind_eq_ok.mp h
  have hpending := not_not.mp (raiseIf_eq_ok.mp hpending)
  split at h
  · cases h
  next expires hexpires =>
  obtain ⟨_, haware, h⟩ := bind_eq_ok.mp h
  have haware : expires.aware = true := by simpa using raiseIf_eq_ok.mp haware
  by_cases hnow : expires.micros ≤ now
  · rw [if_pos hnow] at h
    obtain ⟨rfl, rfl⟩ := Prod.mk.inj (Except.ok.inj h)
    refine ⟨?_, row, expires, hfind, hpending, hexpires, haware, by simp [hnow]⟩
    have hmoves := moves_update (f := fun row : Approval C =>
      { row with
        status := .expired
        decidedAt := some decidedAt
        reason := some (lit "approval expired") })
      (fun _ => rfl) hfind ⟨rfl, rfl, rfl, rfl, rfl⟩
    rwa [hpending] at hmoves
  · rw [if_neg hnow] at h
    obtain ⟨rfl, rfl⟩ := Prod.mk.inj (Except.ok.inj h)
    refine ⟨?_, row, expires, hfind, hpending, hexpires, haware, by simp [hnow]⟩
    exact moves_guarded (fun _ => ⟨rfl, rfl, rfl, rfl, rfl⟩) (fun _ => rfl) hfind hpending

theorem updateFrom_spec {source target : ApprovalStatus} {refusal : Str}
    {f : Approval C → Approval C}
    (hsame : ∀ row, (f row).Same row) (htarget : ∀ row, (f row).status = target)
    (hnodup : (rows.map Approval.approvalId).Nodup)
    (h : store.updateFrom rows approvalId source refusal f = .ok rows') :
        Moves rows rows' approvalId source target := by
  unfold updateFrom at h
  obtain ⟨_, hhit, h⟩ := bind_eq_ok.mp h
  obtain rfl := Except.ok.inj h
  obtain ⟨row, hrow⟩ := List.length_eq_one_iff.mp (not_not.mp (raiseIf_eq_ok.mp hhit))
  have hmem : row ∈ rows.filter fun row => row.approvalId = approvalId && row.status = source := by
    rw [hrow]
    exact List.mem_singleton_self row
  obtain ⟨hrows, hcond⟩ := List.mem_filter.mp hmem
  simp only [Bool.and_eq_true, decide_eq_true_eq] at hcond
  obtain ⟨rfl, hstatus⟩ := hcond
  exact moves_guarded hsame htarget (find_of_mem hnodup hrows) hstatus

theorem reject_spec {decidedAt operator reason : Str}
    (hnodup : (rows.map Approval.approvalId).Nodup)
    (h : store.reject rows approvalId decidedAt operator reason = .ok rows') :
    Moves rows rows' approvalId .pending .rejected := by
  refine updateFrom_spec ?_ ?_ hnodup h
  · exact fun _ => ⟨rfl, rfl, rfl, rfl, rfl⟩
  · exact fun _ => rfl

theorem void_spec {decidedAt reason : Str} (hnodup : (rows.map Approval.approvalId).Nodup)
    (h : store.void rows approvalId decidedAt reason = .ok rows') :
    Moves rows rows' approvalId .approved .void := by
  refine updateFrom_spec ?_ ?_ hnodup h
  · exact fun _ => ⟨rfl, rfl, rfl, rfl, rfl⟩
  · exact fun _ => rfl

theorem insert_spec {row : Approval C} (h : store.insert rows row = .ok rows') :
    rows' = rows ++ [row] ∧ findApproval rows row.approvalId = none := by
  obtain ⟨_, hfree, h⟩ := bind_eq_ok.mp h
  refine ⟨(Except.ok.inj h).symm, ?_⟩
  have hfree := raiseIf_eq_ok.mp hfree
  simp only [List.any_eq_true, Bool.or_eq_true, decide_eq_true_eq, not_exists, not_and, not_or]
    at hfree
  exact List.find?_eq_none.mpr fun r hr => by simpa using (hfree r hr).1

end ApprovalStore

end Vesta
