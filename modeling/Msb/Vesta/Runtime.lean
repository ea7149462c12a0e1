import Msb.Infra.Program
import Msb.Ledger.AuditV2
import Msb.Ledger.Notary
import Msb.Vesta.Approvals

/-!
# The calls of a Vesta service

`vesta/runtime.py`, and what the services of `vesta/write.py` and `vesta/shell.py` share. A service
is a program over the stores around it: the approvals, the tasks, the evidence, the audit chain, the
kill switch, and the writer or the executor. Each call is one access to one of them, and may raise
anything.

* `Svc` — the programs of a service
* `transition`, `approve`, `voidApproval` — the methods that both services have
-/

namespace Vesta

open Py Ledger Machine

/-! ## Tasks -/

/-- `TASK_STATES` -/
inductive TaskState where
  | received
  | authenticated
  | planned
  | authorized
  | waitingApproval
  | approved
  | executing
  | verifying
  | recovering
  | completed
  | denied
  | quarantined
  deriving DecidableEq

def TaskState.text : TaskState → Str
  | .received => lit "RECEIVED"
  | .authenticated => lit "AUTHENTICATED"
  | .planned => lit "PLANNED"
  | .authorized => lit "AUTHORIZED"
  | .waitingApproval => lit "WAITING_APPROVAL"
  | .approved => lit "APPROVED"
  | .executing => lit "EXECUTING"
  | .verifying => lit "VERIFYING"
  | .recovering => lit "RECOVERING"
  | .completed => lit "COMPLETED"
  | .denied => lit "DENIED"
  | .quarantined => lit "QUARANTINED"

/-- `_ALLOWED_TRANSITIONS` -/
def allowedTransitions : TaskState → List TaskState
  | .received => [.authenticated, .denied, .quarantined]
  | .authenticated => [.planned, .denied, .quarantined]
  | .planned => [.authorized, .waitingApproval, .denied, .quarantined]
  | .authorized => [.approved, .executing, .denied, .quarantined]
  | .waitingApproval => [.approved, .denied, .quarantined]
  | .approved => [.executing, .denied, .quarantined]
  | .executing => [.verifying, .recovering, .quarantined]
  | .verifying => [.completed, .recovering, .quarantined]
  | .recovering => [.completed, .quarantined]
  | .completed => []
  | .denied => []
  | .quarantined => []

def taskLifecycleError (message : Str) : PyError := .raised (lit "TaskLifecycleError") message

/-- What `VestaTaskStore.get` returns: the state, the metadata, and `from_state` of the last
transition. -/
structure Task where
  state : TaskState
  metadata : List (PyKey × PyVal)
  fromState : Option TaskState

/-! ## Calls -/

/-- `FileWriteReceipt` -/
structure FileWriteReceipt where
  path : Str
  existed : Bool
  beforeSha256 : Option Str
  afterSha256 : Str
  size : Nat
  before : Option Bytes

/-- The dict of some fields. -/
def fields (items : List (String × PyVal)) : PyVal :=
  .dict (items.map fun p => (.str (lit p.1), p.2))

def optText (s : Option Str) : PyVal := s.elim .none .str

/-- `FileWriteReceipt.public` -/
def FileWriteReceipt.public (receipt : FileWriteReceipt) : PyVal :=
  fields [("path", .str receipt.path), ("existed", .bool receipt.existed),
    ("before_sha256", optText receipt.beforeSha256), ("after_sha256", .str receipt.afterSha256),
    ("size", .int receipt.size)]

/-- What `FileWriter.rollback` returns. -/
structure Rollback where
  ok : Bool
  path : Str
  restoredSha256 : Option Str

/-- `ShellExecutionResult` -/
structure Execution where
  executable : Str
  args : List Str
  returncode : Option Int
  stdout : Str
  stderr : Str
  timedOut : Bool
  outputTruncated : Bool
  durationMs : Int

/-- `as_dict` -/
def Execution.asDict (x : Execution) : PyVal :=
  fields [("executable", .str x.executable), ("args", .list (x.args.map .str)),
    ("returncode", x.returncode.elim .none .int), ("stdout", .str x.stdout),
    ("stderr", .str x.stderr),
    ("timed_out", .bool x.timedOut), ("output_truncated", .bool x.outputTruncated),
      ("duration_ms", .int x.durationMs)]

/-- One access to what is around a service. -/
inductive Call where
  | verifyTrustworthy
  | utcNow
  /-- `_now()` -/
  | nowText
  /-- `uuid.uuid4().hex` -/
  | uuid
  | insert (k : Kind) (row : Approval (Contract k))
  | getApproval (k : Kind) (approvalId : Str)
  | approve (k : Kind) (approvalId : Str) (now : Int) (decidedAt operator : Str)
  | reject (k : Kind) (approvalId decidedAt operator reason : Str)
  | void (k : Kind) (approvalId decidedAt reason : Str)
  | getTask (taskId : Str)
  | transitionTask (taskId : Str) (state : TaskState) (reason : Str) (metadata : PyVal)
  | updateMetadata (taskId : Str) (patch : PyVal)
  | audit (eventType : Str) (payload : PyVal)
  | isArmed
  | readBytes (evidenceId : Str)
  | recordJson (value : PyVal) (evidenceType : Str) (metadata : PyVal)
  | write (targetPath : Str) (content : Bytes) (expectedSha256 : Option Str)
  | rollback (receipt : FileWriteReceipt)
  /-- `bind.expired()` of a binding that was made just now. -/
  | bindExpired
  /-- The process of `ShellExecutor.run`, with the path of the executable in front. -/
  | popen (executable : Str) (command : List Str)

/-- What a call returns where it does not raise. An untrusted chain is its reason, and a file in the
evidence store is its id. -/
abbrev Call.Result : Call → Type
  | .verifyTrustworthy => Option Str
  | .utcNow => Int
  | .nowText => Str
  | .uuid => Str
  | .insert _ _ => Unit
  | .getApproval k _ => Approval (Contract k)
  | .approve .. => Bool
  | .reject .. => Unit
  | .void .. => Unit
  | .getTask _ => Task
  | .transitionTask .. => Unit
  | .updateMetadata .. => Unit
  | .audit .. => Int
  | .isArmed => Bool
  | .readBytes _ => Bytes
  | .recordJson .. => Str
  | .write .. => FileWriteReceipt
  | .rollback _ => Rollback
  | .bindExpired => Bool
  | .popen .. => Execution

/-- What a call is answered with. -/
abbrev Call.Answer (c : Call) : Type := Except PyError c.Result

/-! ## Programs -/

/-- The local variables of a method that an exception does not undo: `event_ids`, `evidence_refs`
and `receipt`. -/
structure Locals where
  eventIds : List Int := []
  evidenceRefs : List PyVal := []
  receipt : Option FileWriteReceipt := none

abbrev Svc := Act Call Call.Answer PyError Locals

/-- The program that makes one call. -/
def perform (c : Call) : Svc c.Result := Act.call c

/-- `event_ids.append(self.audit.append("vesta", ...).seq)` -/
def audit (eventType : String) (payload : PyVal) : Svc Unit := do
  let seq : Int ← perform (.audit (lit eventType) payload)
  Act.setLocals fun x => { x with eventIds := x.eventIds ++ [seq] }

/-- `tasks.transition` -/
def transitionTask (taskId : Str) (state : TaskState) (reason : Str) (metadata : PyVal) :
    Svc Task := do
  let _ ← perform (.transitionTask taskId state reason metadata)
  perform (.getTask taskId)

/-- `tasks.update_metadata` -/
def updateMetadata (taskId : Str) (patch : PyVal) : Svc Task := do
  let _ ← perform (.updateMetadata taskId patch)
  perform (.getTask taskId)

/-- `_transition` -/
def transition (taskId : Str) (state : TaskState) (reason : Str) (metadata : PyVal) : Svc Unit := do
  let task ← transitionTask taskId state reason metadata
  audit "task.transition" (fields [("task_id", .str taskId),
    ("from_state", optText (task.fromState.map TaskState.text)), ("to_state", .str state.text),
    ("reason", .str reason), ("metadata", metadata)])

/-- `approve` of an approval store. -/
def approve (k : Kind) (approvalId operator : Str) : Svc (Approval (Contract k)) := do
  let now ← perform .utcNow
  let decidedAt ← perform .nowText
  let expired : Bool ← perform (.approve k approvalId now decidedAt operator)
  if expired then throw (k.store.error k.store.expired)
  else perform (.getApproval k approvalId)

/-- `reject` of an approval store. -/
def reject (k : Kind) (approvalId operator reason : Str) : Svc (Approval (Contract k)) := do
  let decidedAt ← perform .nowText
  let _ ← perform (.reject k approvalId decidedAt operator reason)
  perform (.getApproval k approvalId)

/-- `void` of an approval store. -/
def void (k : Kind) (approvalId reason : Str) : Svc (Approval (Contract k)) := do
  let decidedAt ← perform .nowText
  let _ ← perform (.void k approvalId decidedAt reason)
  perform (.getApproval k approvalId)

/-- `isinstance(e, ...)` for classes that are named. -/
def caught (classes : List String) : PyError → Bool
  | .raised name _ => (classes.map lit).contains name
  | _ => false

/-- What the services ask the language: `datetime.fromisoformat`, and `str` of what is no string. -/
structure Library where
  fromisoformat : IsoParser
  strValue : PyVal → Str
  strError : PyError → Str

/-- `str(v)` -/
def Library.str (lib : Library) : PyVal → Str
  | .str s => s
  | v => lib.strValue v

/-- `str(e)` -/
def Library.errorText (lib : Library) : PyError → Str
  | .raised _ message => message
  | e => lib.strError e

/-- The error class of the store of a kind. -/
def Kind.errorClass : Kind → String
  | .write => "ApprovalError"
  | .shell => "ShellCapabilityError"

/-- `_void_approval` -/
def voidApproval (k : Kind) (approvalId reason : Str) : Svc Unit :=
  tryCatch
    (do
      let _ ← void k approvalId reason
      let row ← perform (.getApproval k approvalId)
      audit "approval.voided"
        (fields [("approval_id", .str approvalId), ("task_id", .str row.taskId),
        ("reason", .str reason)]))
    fun e => if caught [k.errorClass] e then pure () else throw e

/-- What a service returns. -/
structure ServiceResult where
  status : Str
  taskId : Str
  approvalId : Str
  error : Option Str := none
  receipt : Option FileWriteReceipt := none
  rollback : Option PyVal := none
  execution : Option Execution := none
  evidenceRefs : List PyVal
  eventIds : List Int

/-- The values of an iterable. -/
def iterate : PyVal → Except PyError (List PyVal)
  | .list xs | .tuple xs => .ok xs
  | .str s => .ok (s.map fun c => .str [c])
  | .dict items => .ok (items.map fun p =>
    match p.1 with
    | .none => .none
    | .bool b => .bool b
    | .int i => .int i
    | .float f => .float f
    | .str s => .str s)
  | _ => .error .typeError

/-- `list(task["metadata"].get("evidence_refs", []))` -/
def Task.evidenceRefs (task : Task) : Except PyError (List PyVal) :=
  iterate ((getItem task.metadata (lit "evidence_refs")).getD (.list []))

/-- `evidence_refs.append(...)` -/
def addRef (evidenceId : Str) : Svc Unit :=
  Act.setLocals fun x => { x with evidenceRefs := x.evidenceRefs ++ [.str evidenceId] }

def refs : Svc PyVal := do
  let x ← Act.locals
  pure (.list x.evidenceRefs)

/-- The dict that holds nothing. -/
def noMetadata : PyVal := .dict []

end Vesta
