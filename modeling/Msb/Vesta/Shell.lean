import Msb.Vesta.Write

/-!
# The shell service

`vesta/shell.py` and `authorize_shell` of `vesta/policy.py`: the command of an approved contract is
read back from the row, checked against the hash beside it, and run by one call of the executor.

* `shellAndExecute` — `VestaShellService.approve_and_execute`
-/

namespace Vesta

open Py Ledger Machine

/-- `ShellExecutor`, by the executables that it has found. -/
structure ShellExecutor where
  allowedCommands : List (Str × Str)

/-- `self.allowed_commands[executable]` -/
def ShellExecutor.path (self : ShellExecutor) (executable : Str) : Option Str :=
  (self.allowedCommands.find? fun p => p.1 = executable).map Prod.snd

/-- `ShellExecutor.validate_command` -/
def ShellExecutor.validateCommand (self : ShellExecutor) (executable : Str) (args : List Str) :
    Except PyError Unit := do
  raiseIf ((self.path executable).isNone)
    (shellCapabilityError (lit "executable is not allowlisted"))
  raiseIf (32 < args.length) (shellCapabilityError (lit "too many command arguments"))
  raiseIf (args.any fun arg => arg.contains 0 || decide (1024 < arg.length))
    (shellCapabilityError (lit "invalid command argument"))
  raiseIf (8192 < (args.map List.length).sum)
    (shellCapabilityError (lit "command arguments exceed size limit"))
  raiseIf (executable = lit "pwd" ∧ args ≠ [])
    (shellCapabilityError (lit "pwd accepts no arguments"))
  raiseIf (executable = lit "echo" ∧ (args.any fun arg => (lit "-").isPrefixOf arg) = true)
    (shellCapabilityError (lit "echo flags are not permitted"))

/-- `ALLOWED_SHELL_COMMANDS` -/
def allowedShellCommands : List Str := [lit "echo", lit "pwd"]

/-- `len(v)` -/
def lengthOf : PyVal → Except PyError Nat
  | .str s => .ok s.length
  | .list xs | .tuple xs => .ok xs.length
  | .dict items => .ok items.length
  | _ => .error .typeError

/-- `authorize_shell`, for a binding with the capability `shell.exec` alone: whether it asks for an
approval. The second test looks for the text of an escape, not for the character. -/
def authorizeShell (executable : Str) (args : List Str) (expectedStdout : PyVal) (expired : Bool) :
    Except PyError Bool := do
  let long := args.any fun arg => lit "\\x00" <:+: arg ∨ 1024 < arg.length
  if executable ∉ allowedShellCommands then .ok false
  else if long ∨ 8192 < (args.map List.length).sum then .ok false
  else if 32 < args.length then .ok false
  else if executable = lit "pwd" ∧ args ≠ [] then .ok false
  else if executable = lit "echo" ∧ (args.any fun arg => (lit "-").isPrefixOf arg) = true
    then .ok false
  else
    match expectedStdout with
    | .none => .ok !expired
    | v => do
      let n ← lengthOf v
      .ok (decide (n ≤ 65536) && !expired)

/-! ## `submit` and `reject` -/

section

variable (P : Platform)

/-- `_command_hash` -/
def commandHash (command : PyVal) : Except PyError Str := do
  let canonical ← dumps P.keySort true canonicalStyle command
  let b ← encodeE canonical
  .ok (P.hexdigest b)

/-- `VestaShellApprovalStore.submit` -/
def submitShell (taskId bindId : Str) (command : PyVal) (policyVersion expiresAt : Str) :
    Svc (Approval ShellContract) := do
  let hex : Str ← perform .uuid
  let approvalId := lit "shell_ack_" ++ hex
  let commandJson ← Act.lift (dumps P.keySort true canonicalStyle command)
  let commandSha256 ← Act.lift (commandHash P command)
  let createdAt ← perform .nowText
  let row : Approval (Contract .shell) :=
    { approvalId, taskId, bindId
      contract := (⟨commandJson, commandSha256⟩ : ShellContract)
      policyVersion, expiresAt, status := .pending, createdAt }
  let _ ← perform (.insert .shell row)
  perform (.getApproval .shell approvalId)

/-- `VestaShellService.reject` -/
def rejectShell : Str → Str → Str → Svc ServiceResult :=
  rejectAndDeny .shell "owner rejected shell execution"

/-! ## `approve_and_execute` -/

/-- `command[key]` -/
def itemOf (command : List (PyKey × PyVal)) (key : String) : Except PyError PyVal :=
  match getItem command (lit key) with
  | none => .error (.raised (lit "KeyError") (lit key))
  | some v => .ok v

/-- A command as it is run. -/
structure Command where
  executable : Str
  args : List Str
  expectedStdout : PyVal

variable (lib : Library) (executor : ShellExecutor)

/-- The command of a contract, checked against its hash. -/
def contractCommand (contract : ShellContract) : Except PyError Command := do
  match ← loads contract.commandJson with
  | .dict command =>
    let found ← commandHash P (.dict command)
    raiseIf (found ≠ contract.commandSha256)
      (shellCapabilityError (lit "approved shell command evidence changed"))
    let executable ← itemOf command "executable"
    let args ← itemOf command "args"
    let args ← iterate args
    .ok ⟨lib.str executable, args.map lib.str, (getItem command (lit "expected_stdout")).getD .none⟩
  | _ => .error (shellCapabilityError (lit "approved shell command is not an object"))

/-- `ShellExecutor.run` -/
def runCommand (command : Command) : Svc Execution := do
  Act.lift (executor.validateCommand command.executable command.args)
  match executor.path command.executable with
  | none => throw (.raised (lit "KeyError") command.executable)
  | some path => perform (.popen path command.args)

/-- `verification["ok"]` -/
def Execution.verified (x : Execution) (expectedStdout : PyVal) : Bool :=
  !x.timedOut && x.returncode == some 0 && !x.outputTruncated &&
    (match expectedStdout with
    | .none => true
    | v => isText v x.stdout)

/-- `verification` -/
def Execution.verification (x : Execution) (expectedStdout : PyVal) : PyVal :=
  fields [("ok", .bool (x.verified expectedStdout)),
    ("method", .str (lit "returncode_timeout_output_and_expected_stdout")),
    ("returncode", x.returncode.elim .none .int), ("timed_out", .bool x.timedOut),
    ("output_truncated", .bool x.outputTruncated)]

/-- The body of the `try` after the call of the executor. -/
def recordRun (taskId approvalId : Str) (command : Command) (execution : Execution) :
    Svc ServiceResult := do
  let evidenceId : Str ← perform (.recordJson execution.asDict (lit "vesta.shell_output")
    (fields [("task_id", .str taskId), ("approval_id", .str approvalId)]))
  addRef evidenceId
  let evidenceRefs ← refs
  let _ ← updateMetadata taskId (fields [("evidence_refs", evidenceRefs)])
  let verification := execution.verification command.expectedStdout
  transition taskId .verifying []
    (fields [("verification", verification), ("evidence_refs", evidenceRefs)])
  if !execution.verified command.expectedStdout then
    throw (shellCapabilityError (lit "shell postcondition verification failed"))
  else
    audit "execution.verified" (fields [("task_id", .str taskId), ("approval_id", .str approvalId),
      ("verification", verification), ("evidence_refs", evidenceRefs)])
    transition taskId .completed [] (fields [("evidence_refs", evidenceRefs)])
    let x : Locals ← Act.locals
    pure { status := lit "completed", taskId, approvalId, execution := some execution,
           evidenceRefs := x.evidenceRefs, eventIds := x.eventIds }

/-- The body of the `try`. -/
def attemptRun (approvalId : Str) (approval : Approval ShellContract) : Svc ServiceResult := do
  let command ← Act.lift (contractCommand P lib approval.contract)
  Act.lift (executor.validateCommand command.executable command.args)
  let expired : Bool ← perform .bindExpired
  let asks ← Act.lift
    (authorizeShell command.executable command.args command.expectedStdout expired)
  if !asks then throw (shellCapabilityError (lit "approved command is no longer authorized"))
  else
    let armed ← startExecution .shell approval.taskId approvalId
    if armed then quarantinedResult approval.taskId approvalId (lit "kill switch armed") none
    else
      let execution ← runCommand executor command
      recordRun approval.taskId approvalId command execution

/-- The classes that `approve_and_execute` catches, beside `JSONDecodeError`. -/
def shellFailures : List String := ["ShellCapabilityError", "EvidenceError", "TaskLifecycleError"]

/-- The transitions in the `except` of `approve_and_execute`. -/
def quarantineTask (taskId error : Str) : Svc Unit := do
  let task : Task ← perform (.getTask taskId)
  if task.state ∈ [TaskState.executing, .verifying] then
    transition taskId .recovering error noMetadata
  let task : Task ← perform (.getTask taskId)
  if task.state ∈ [TaskState.waitingApproval, .approved, .recovering] then
    let evidenceRefs ← refs
    transition taskId .quarantined (lit "shell execution failed; operator review required")
      (fields [("evidence_refs", evidenceRefs)])

/-- The `except` of `approve_and_execute`. -/
def quarantineRun (taskId approvalId error : Str) : Svc ServiceResult := do
  tryCatch (quarantineTask taskId error) fun e => if caught ["TaskLifecycleError"] e then pure ()
    else throw e
  voidApproval .shell approvalId error
  let evidenceRefs ← refs
  audit "execution.failed" (fields [("task_id", .str taskId), ("approval_id", .str approvalId),
    ("error", .str error), ("evidence_refs", evidenceRefs)])
  quarantinedResult taskId approvalId error none

/-- `VestaShellService.approve_and_execute` -/
def shellAndExecute (approvalId operator : Str) (signedProof : PyVal) : Svc ServiceResult := do
  trusted .shell
  let approval ← approve .shell approvalId operator
  let taskId := approval.taskId
  approvalDecided approvalId taskId operator signedProof
  let task : Task ← perform (.getTask taskId)
  takeRefs task
  tryCatch (attemptRun P lib executor approvalId approval) fun e =>
    if caught shellFailures e || e = .jsonDecodeError then quarantineRun taskId approvalId
      (lib.errorText e)
    else throw e

end

end Vesta
