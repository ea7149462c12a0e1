import Msb.Vesta.Runtime

/-!
# The file write service

`vesta/write.py`: an approved contract is carried out by one call of the writer, and a failure that
the service knows undoes the write and quarantines the task.

* `writeAndExecute` — `VestaWriteService.approve_and_execute`
-/

namespace Vesta

open Py Ledger Machine

/-! ## `submit` and `reject` -/

/-- `VestaApprovalStore.submit` -/
def submitWrite (taskId bindId : Str) (contract : WriteContract) (policyVersion expiresAt : Str) :
    Svc (Approval WriteContract) := do
  let hex : Str ← perform .uuid
  let approvalId := lit "ack_" ++ hex
  let createdAt ← perform .nowText
  let row : Approval (Contract .write) :=
    { approvalId
      taskId
      bindId
      contract
      policyVersion
      expiresAt
      status := .pending
      createdAt }
  let _ ← perform (.insert .write row)
  perform (.getApproval .write approvalId)

/-- `reject` of a service; `reason or default` goes to the task. -/
def rejectAndDeny (k : Kind) (default : String) (approvalId operator reason : Str) :
    Svc ServiceResult := do
  let approval ← reject k approvalId operator reason
  transition approval.taskId .denied (if reason = [] then lit default else reason) noMetadata
  audit "approval.rejected"
    (fields [("approval_id", .str approvalId), ("task_id", .str approval.taskId),
    ("operator", .str operator), ("reason", .str reason)])
  let x : Locals ← Act.locals
  pure { status := lit "rejected"
         taskId := approval.taskId
         approvalId
         evidenceRefs := []
         eventIds := x.eventIds }

/-- `VestaWriteService.reject` -/
def rejectWrite : Str → Str → Str → Svc ServiceResult := rejectAndDeny .write "owner rejected write"

/-! ## `approve_and_execute` -/

def evidenceError (message : Str) : PyError := .raised (lit "EvidenceError") message

def capabilityViolation (message : Str) : PyError := .raised (lit "CapabilityViolation") message

/-- The first lines of both services: an untrusted chain refuses the approval. -/
def trusted (k : Kind) : Svc Unit := do
  let trust : Option Str ← perform .verifyTrustworthy
  match trust with
  | none => pure ()
  | some reason =>
    throw (k.store.error
      (lit "audit chain not trustworthy — verify-before-trust failed: " ++ reason))

/-- The event of an approval. -/
def approvalDecided (approvalId taskId operator : Str) (signedProof : PyVal) : Svc Unit :=
  audit "approval.decided" (fields [("approval_id", .str approvalId), ("task_id", .str taskId),
    ("status", .str (lit "APPROVED")), ("operator", .str operator), ("signed_proof", signedProof)])

/-- `evidence_refs = list(task["metadata"].get("evidence_refs", []))` -/
def takeRefs (task : Task) : Svc Unit := do
  let found ← Act.lift task.evidenceRefs
  Act.setLocals fun x => { x with evidenceRefs := found }

/-- The transitions of an approved task, and the kill switch: whether the switch is armed. -/
def startExecution (k : Kind) (taskId approvalId : Str) : Svc Bool := do
  transition taskId .approved [] (fields [("approval_id", .str approvalId)])
  transition taskId .executing [] (fields [("approval_id", .str approvalId)])
  let armed : Bool ← perform .isArmed
  if armed then
    transition taskId .quarantined (lit "kill switch armed") noMetadata
    voidApproval k approvalId (lit "kill switch armed")
  pure armed

/-- The result of a quarantined task. -/
def quarantinedResult (taskId approvalId error : Str) (rollback : Option PyVal) :
    Svc ServiceResult := do
  let x : Locals ← Act.locals
  pure { status := lit "quarantined", taskId, approvalId, error := some error, rollback,
         evidenceRefs := x.evidenceRefs, eventIds := x.eventIds }

section

variable (P : Platform) (lib : Library)

/-- The body of the `try` up to the call of the writer. -/
def writeContract (approval : Approval WriteContract) : Svc FileWriteReceipt := do
  let content : Bytes ← perform (.readBytes approval.contract.payloadEvidenceId)
  if P.hexdigest content ≠ approval.contract.payloadSha256 then
    throw (evidenceError (lit "approved payload evidence hash changed"))
  else
    perform (.write approval.contract.targetPath content approval.contract.expectedSha256)

/-- The body of the `try` after the call of the writer. -/
def recordWrite (taskId approvalId : Str) (receipt : FileWriteReceipt) : Svc ServiceResult := do
  Act.setLocals fun x => { x with receipt := some receipt }
  let evidenceId : Str ← perform (.recordJson receipt.public (lit "vesta.file_write_receipt")
    (fields [("task_id", .str taskId), ("approval_id", .str approvalId)]))
  addRef evidenceId
  let evidenceRefs ← refs
  let _ ← updateMetadata taskId (fields [("evidence_refs", evidenceRefs)])
  transition taskId .verifying []
    (fields [("receipt", receipt.public), ("evidence_refs", evidenceRefs)])
  audit "execution.verified" (fields [("task_id", .str taskId), ("approval_id", .str approvalId),
    ("receipt", receipt.public), ("evidence_refs", evidenceRefs)])
  transition taskId .completed [] (fields [("evidence_refs", evidenceRefs)])
  let x : Locals ← Act.locals
  pure { status := lit "completed", taskId, approvalId, receipt := some receipt,
         evidenceRefs := x.evidenceRefs,
         eventIds := x.eventIds }

/-- The body of the `try`. -/
def attemptWrite (approvalId : Str) (approval : Approval WriteContract) : Svc ServiceResult := do
  let armed ← startExecution .write approval.taskId approvalId
  if armed then quarantinedResult approval.taskId approvalId (lit "kill switch armed") none
  else
    let receipt ← writeContract P approval
    recordWrite approval.taskId approvalId receipt

/-- The classes that `approve_and_execute` catches. -/
def writeFailures : List String :=
  ["ApprovalError", "CapabilityViolation", "EvidenceError", "TaskLifecycleError"]

/-- `rollback`, where the writer has returned a receipt. -/
def undoWrite : Svc PyVal := do
  let x : Locals ← Act.locals
  match x.receipt with
  | none => pure (fields [("ok", .bool true), ("performed", .bool false)])
  | some receipt =>
    let undone : Rollback ← perform (.rollback receipt)
    pure (fields [("performed", .bool true), ("ok", .bool undone.ok), ("path", .str undone.path),
      ("restored_sha256", optText undone.restoredSha256)])

/-- The `except` of `approve_and_execute`. -/
def quarantineWrite (taskId approvalId error : Str) : Svc ServiceResult := do
  let rollback ← undoWrite
  let evidenceRefs ← refs
  let metadata := fields [("rollback", rollback), ("evidence_refs", evidenceRefs)]
  tryCatch
    (do
      transition taskId .recovering error metadata
      transition taskId .quarantined
        (lit "write execution failed; operator review required") metadata)
    fun e => if caught ["TaskLifecycleError"] e then pure () else throw e
  voidApproval .write approvalId error
  audit "execution.failed" (fields [("task_id", .str taskId), ("approval_id", .str approvalId),
    ("error", .str error), ("rollback", rollback), ("evidence_refs", evidenceRefs)])
  quarantinedResult taskId approvalId error (some rollback)

/-- `VestaWriteService.approve_and_execute` -/
def writeAndExecute (approvalId operator : Str) (signedProof : PyVal) : Svc ServiceResult := do
  trusted .write
  let approval ← approve .write approvalId operator
  let taskId := approval.taskId
  let task : Task ← perform (.getTask taskId)
  approvalDecided approvalId taskId operator signedProof
  takeRefs task
  tryCatch (attemptWrite P approvalId approval) fun e =>
    if caught writeFailures e then quarantineWrite taskId approvalId (lib.errorText e) else throw e

end

end Vesta
