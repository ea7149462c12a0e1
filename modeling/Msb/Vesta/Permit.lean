import Msb.Vesta.Shell

/-!
# The permit of an approval

What a call of a service may do, and when. A call of `approve_and_execute` approves once, reads the
row that it has approved, and then writes or runs what the row is for, at most once. The other
methods write and run nothing.

* `writeAndExecute_follows`, `shellAndExecute_follows` — both services keep to it
-/

namespace Vesta

open Py Ledger Machine

/-- The call writes the file, or runs the command. -/
def Call.executes : Call → Bool
  | .write .. => true
  | .popen .. => true
  | _ => false

/-- The approval that a call is to approve. -/
def Call.approves : Call → Option (Kind × Str)
  | .approve k approvalId .. => some (k, approvalId)
  | _ => none

/-- **The call carries out the contract**: it writes the bytes, or runs the command, whose hash the
row has recorded. -/
inductive CarriesOut (P : Platform) (lib : Library) (executor : ShellExecutor) :
    (k : Kind) → Contract k → Call → Prop where
  | write (contract : WriteContract) (content : Bytes)
    (hash : P.hexdigest content = contract.payloadSha256) :
      CarriesOut P lib executor .write contract
      (.write contract.targetPath content contract.expectedSha256)
  | shell (contract : ShellContract) (command : List (PyKey × PyVal)) (executable args : PyVal)
    (values : List PyVal) (path : Str) (text : loads contract.commandJson = .ok (.dict command))
      (hash : commandHash P (.dict command) = .ok contract.commandSha256)
      (executable_eq : getItem command (lit "executable") = some executable)
      (args_eq : getItem command (lit "args") = some args) (values_eq : iterate args = .ok values)
      (path_eq : executor.path (lib.str executable) = some path) :
      CarriesOut P lib executor .shell contract (.popen path (values.map lib.str))

/-! ## Stages -/

/-- How far a method has come. -/
inductive Stage where
  /-- It carries out nothing. -/
  | passive
  /-- It may approve, and has not done so. -/
  | undecided (k : Kind) (approvalId : Str)
  /-- It has approved, and has not read the row. -/
  | decided (k : Kind) (approvalId : Str)
  /-- It may carry out the contract of the row. -/
  | permit (k : Kind) (row : Approval (Contract k))
  | spent

def Stage.next : Stage → (c : Call) → c.Answer → Stage
  | .undecided _ _, .approve k approvalId .., .ok false => .decided k approvalId
  | .undecided _ _, .approve .., _ => .spent
  | .decided _ _, .getApproval k _, .ok row => .permit k row
  | .permit k row, c, _ => if c.executes then .spent else .permit k row
  | t, _, _ => t

/-- A call that neither approves nor carries out anything. -/
def Quiet (c : Call) : Prop := c.executes = false ∧ c.approves = none

def Stage.Allows (P : Platform) (lib : Library) (executor : ShellExecutor) (c : Call) : Stage → Prop
  | .passive | .spent => Quiet c
  | .undecided k approvalId => c.executes = false ∧ ∀ key ∈ c.approves, key = (k, approvalId)
  | .decided k approvalId => c = .getApproval k approvalId
  | .permit k row =>
    c.approves = none ∧ (c.executes = true → CarriesOut P lib executor k row.contract c)

def permit (P : Platform) (lib : Library) (executor : ShellExecutor) :
    Protocol Call Call.Answer Stage :=
  ⟨fun t c => t.Allows P lib executor c, Stage.next⟩

/-! ## Quiet methods -/

theorem quiet_perform {c : Call} (hc : Quiet c) : (perform c).All Quiet := Act.all_call hc

theorem quiet_audit {eventType : String} {payload : PyVal} : (audit eventType payload).All Quiet :=
  (quiet_perform ⟨rfl, rfl⟩).bind fun _ _ => trivial

variable {taskId reason approvalId error : Str} {k : Kind}

theorem quiet_transition {state : TaskState} {metadata : PyVal} :
    (transition taskId state reason metadata).All Quiet := by
  have htask : (transitionTask taskId state reason metadata).All Quiet :=
    (quiet_perform ⟨rfl, rfl⟩).bind fun _ => quiet_perform ⟨rfl, rfl⟩
  exact htask.bind fun _ => quiet_audit

theorem quiet_updateMetadata {patch : PyVal} : (updateMetadata taskId patch).All Quiet :=
  (quiet_perform ⟨rfl, rfl⟩).bind fun _ => quiet_perform ⟨rfl, rfl⟩

theorem quiet_void : (void k approvalId reason).All Quiet :=
  (quiet_perform ⟨rfl, rfl⟩).bind fun _ => (quiet_perform ⟨rfl, rfl⟩).bind fun _ =>
    quiet_perform ⟨rfl, rfl⟩

theorem quiet_swallow {classes : List String} {e : PyError} :
    (if caught classes e then pure () else throw e : Svc Unit).All Quiet := by
  split
  · exact fun _ => trivial
  · exact fun _ => trivial

theorem quiet_voidApproval : (voidApproval k approvalId reason).All Quiet := by
  refine Act.All.tryCatch ?_ fun _ => quiet_swallow
  exact quiet_void.bind fun _ => (quiet_perform ⟨rfl, rfl⟩).bind fun _ => quiet_audit

theorem quiet_startExecution :
    (startExecution k taskId approvalId).All Quiet := by
  refine quiet_transition.bind fun _ => quiet_transition.bind fun _ => ?_
  refine (quiet_perform ⟨rfl, rfl⟩).bind fun armed => ?_
  split
  · exact quiet_transition.bind fun _ => quiet_voidApproval.bind fun _ _ => trivial
  · exact fun _ => trivial

theorem quiet_quarantinedResult {rollback : Option PyVal} :
    (quarantinedResult taskId approvalId error rollback).All Quiet := fun _ => trivial

theorem quiet_reject {default : String} {operator : Str} :
    (rejectAndDeny k default approvalId operator reason).All Quiet := by
  have hreject : (reject k approvalId operator reason).All Quiet :=
    (quiet_perform ⟨rfl, rfl⟩).bind fun _ => (quiet_perform ⟨rfl, rfl⟩).bind fun _ =>
      quiet_perform ⟨rfl, rfl⟩
  refine hreject.bind fun _ => quiet_transition.bind fun _ => quiet_audit.bind fun _ => ?_
  exact fun _ => trivial

theorem quiet_trusted : (trusted k).All Quiet := by
  refine (quiet_perform ⟨rfl, rfl⟩).bind fun trust => ?_
  cases trust with
  | none => exact fun _ => trivial
  | some reason => exact fun _ => trivial

theorem quiet_takeRefs {task : Task} : (takeRefs task).All Quiet :=
  Act.All.bind (fun _ => trivial) fun _ _ => trivial

/-! ### The write service -/

theorem quiet_submitWrite {bindId : Str} {contract : WriteContract}
    {policyVersion expiresAt : Str} :
    (submitWrite taskId bindId contract policyVersion expiresAt).All Quiet :=
  (quiet_perform ⟨rfl, rfl⟩).bind fun _ => (quiet_perform ⟨rfl, rfl⟩).bind fun _ =>
    (quiet_perform ⟨rfl, rfl⟩).bind fun _ => quiet_perform ⟨rfl, rfl⟩

theorem quiet_recordWrite {receipt : FileWriteReceipt} :
    (recordWrite taskId approvalId receipt).All Quiet := by
  refine Act.All.bind (fun _ => trivial) fun _ => (quiet_perform ⟨rfl, rfl⟩).bind fun _ => ?_
  refine Act.All.bind (fun _ => trivial) fun _ => Act.All.bind (fun _ => trivial) fun _ => ?_
  refine quiet_updateMetadata.bind fun _ => quiet_transition.bind fun _ => ?_
  exact quiet_audit.bind fun _ => quiet_transition.bind fun _ _ => trivial

theorem quiet_undoWrite : undoWrite.All Quiet := by
  refine Act.All.bind (fun _ => trivial) fun x => ?_
  cases x.receipt with
  | none => exact fun _ => trivial
  | some receipt => exact (quiet_perform ⟨rfl, rfl⟩).bind fun _ _ => trivial

theorem quiet_quarantineWrite :
    (quarantineWrite taskId approvalId error).All Quiet := by
  refine quiet_undoWrite.bind fun _ => Act.All.bind (fun _ => trivial) fun _ => ?_
  refine Act.All.bind ?_ fun _ => quiet_voidApproval.bind fun _ => quiet_audit.bind fun _ => ?_
  · exact Act.All.tryCatch (quiet_transition.bind fun _ => quiet_transition) fun _ => quiet_swallow
  · exact quiet_quarantinedResult

/-! ### The shell service -/

theorem quiet_submitShell {P : Platform} {bindId : Str} {command : PyVal}
    {policyVersion expiresAt : Str} :
    (submitShell P taskId bindId command policyVersion expiresAt).All Quiet := by
  refine (quiet_perform ⟨rfl, rfl⟩).bind fun _ => Act.All.bind (fun _ => trivial) fun _ => ?_
  refine Act.All.bind (fun _ => trivial) fun _ => (quiet_perform ⟨rfl, rfl⟩).bind fun _ => ?_
  exact (quiet_perform ⟨rfl, rfl⟩).bind fun _ => quiet_perform ⟨rfl, rfl⟩

theorem quiet_recordRun {command : Command} {execution : Execution} :
    (recordRun taskId approvalId command execution).All Quiet := by
  refine (quiet_perform ⟨rfl, rfl⟩).bind fun _ => Act.All.bind (fun _ => trivial) fun _ => ?_
  refine Act.All.bind (fun _ => trivial) fun _ => quiet_updateMetadata.bind fun _ => ?_
  refine quiet_transition.bind fun _ => ?_
  split
  · exact fun _ => trivial
  · exact quiet_audit.bind fun _ => quiet_transition.bind fun _ _ => trivial

theorem quiet_quarantineTask : (quarantineTask taskId error).All Quiet := by
  have hrest : (do
      let task : Task ← perform (.getTask taskId)
      if task.state ∈ [TaskState.waitingApproval, .approved, .recovering] then
        let evidenceRefs ← refs
        transition taskId .quarantined (lit "shell execution failed; operator review required")
          (fields [("evidence_refs", evidenceRefs)]) : Svc Unit).All Quiet := by
    refine (quiet_perform ⟨rfl, rfl⟩).bind fun _ => ?_
    split
    · exact Act.All.bind (fun _ => trivial) fun _ => quiet_transition
    · exact fun _ => trivial
  refine (quiet_perform ⟨rfl, rfl⟩).bind fun _ => ?_
  split
  · exact quiet_transition.bind fun _ => hrest
  · exact hrest

theorem quiet_quarantineRun :
    (quarantineRun taskId approvalId error).All Quiet := by
  refine Act.All.bind (Act.All.tryCatch quiet_quarantineTask fun _ => quiet_swallow) fun _ => ?_
  refine quiet_voidApproval.bind fun _ => Act.All.bind (fun _ => trivial) fun _ => quiet_audit.bind
    fun _ => ?_
  exact quiet_quarantinedResult

/-! ## Both services keep to the permit -/

theorem itemOf_eq_ok {command : List (PyKey × PyVal)} {key : String} {v : PyVal}
    (h : itemOf command key = .ok v) : getItem command (lit key) = some v := by
  unfold itemOf at h
  split at h
  · cases h
  next hv =>
  rwa [← Except.ok.inj h]

/-- The command that has passed the check of its hash is the one of the row. -/
theorem carriesOut_command {P : Platform} {lib : Library} {executor : ShellExecutor}
    {contract : ShellContract}
    {command : Command} {path : Str} (h : contractCommand P lib contract = .ok command)
    (hpath : executor.path command.executable = some path) :
    CarriesOut P lib executor .shell contract (.popen path command.args) := by
  obtain ⟨parsed, hparsed, h⟩ := bind_eq_ok.mp h
  split at h
  · next items =>
    obtain ⟨found, hfound, h⟩ := bind_eq_ok.mp h
    obtain ⟨_, hsame, h⟩ := bind_eq_ok.mp h
    obtain ⟨executable, hexecutable, h⟩ := bind_eq_ok.mp h
    obtain ⟨args, hargs, h⟩ := bind_eq_ok.mp h
    obtain ⟨values, hvalues, h⟩ := bind_eq_ok.mp h
    obtain rfl := Except.ok.inj h
    obtain rfl := not_not.mp (raiseIf_eq_ok.mp hsame)
    exact .shell contract items executable args values path hparsed hfound
      (itemOf_eq_ok hexecutable) (itemOf_eq_ok hargs) hvalues hpath
  · cases h

section

variable {P : Platform} {lib : Library} {executor : ShellExecutor} {α β : Type} {x : Locals}
  {t : Stage}

/-- A quiet call leaves the stage as it is, but for the one that waits for its row. -/
theorem next_of_quiet {c : Call} (ht : ∀ k approvalId, t ≠ .decided k approvalId) (hc : Quiet c) :
    t.Allows P lib executor c ∧ ∀ answer, t.next c answer = t := by
  obtain ⟨hexecutes, happroves⟩ := hc
  cases t with
  | passive => exact ⟨⟨hexecutes, happroves⟩, fun _ => rfl⟩
  | spent => exact ⟨⟨hexecutes, happroves⟩, fun _ => rfl⟩
  | decided k approvalId => exact absurd rfl (ht k approvalId)
  | undecided k approvalId =>
    refine ⟨⟨hexecutes, by simp [happroves]⟩, fun answer => ?_⟩
    cases c <;> first | rfl | cases happroves
  | permit k row =>
    refine ⟨⟨happroves, by simp [hexecutes]⟩, fun answer => ?_⟩
    simp [Stage.next, hexecutes]

/-- A quiet method, in a stage that it does not change. -/
theorem ensures_quiet {act : Svc α} {Q : Except PyError α → Locals → Stage → Prop}
    (hact : act.All Quiet)
    (ht : ∀ k approvalId, t ≠ .decided k approvalId) (h : ∀ out y, Q out y t) :
    act.Ensures (permit P lib executor) x t Q := by
  refine hact.ensures (I := fun u => u = t) ?_ rfl fun out y u hu => ?_
  · rintro u c rfl hc
    exact next_of_quiet ht hc
  · subst hu
    exact h out y

/-- A quiet method, and what follows its value. -/
theorem ensures_quiet_bind {act : Svc α} {f : α → Svc β} {Q : Except PyError β → Locals →
    Stage → Prop} (hact : act.All Quiet) (ht : ∀ k approvalId, t ≠ .decided k approvalId)
    (hf : ∀ a y, (f a).Ensures (permit P lib executor) y t Q) (he : ∀ e y, Q (.error e) y t) :
    (act >>= f).Ensures (permit P lib executor) x t Q :=
  Act.ensures_bind (ensures_quiet hact ht fun _ y => ⟨fun a _ => hf a y, fun e _ => he e y⟩)

variable {approvalId operator : Str}

/-- **An approval gives the permit of the row that it returns.** -/
theorem approve_follows {k : Kind} :
    (approve k approvalId operator).Ensures (permit P lib executor) x (.undecided k approvalId)
      fun out _ t => ∀ row, out = .ok row → t = .permit k row := by
  have hstage : ∀ k' id, Stage.undecided k approvalId ≠ .decided k' id := nofun
  refine ensures_quiet_bind (quiet_perform ⟨rfl, rfl⟩) hstage (fun now y => ?_) (by simp)
  refine ensures_quiet_bind (quiet_perform ⟨rfl, rfl⟩) hstage (fun decidedAt y => ?_) (by simp)
  refine Act.ensures_bind (Act.ensures_call ⟨rfl, by rintro _ ⟨⟩; rfl⟩ fun answer =>
    ⟨fun expired h => ?_, by simp⟩)
  subst h
  cases expired with
  | true => exact fun row h => by cases h
  | false =>
    refine Act.ensures_call (show Stage.Allows P lib executor _ (.decided k approvalId) from rfl)
      fun answer => ?_
    rintro row rfl
    rfl

/-- The stages of a call that has its permit, or has used it. -/
def Stage.Granted (k : Kind) (row : Approval (Contract k)) (t : Stage) : Prop :=
  t = .permit k row ∨ t = .spent

theorem Stage.Granted.ne_decided {k : Kind} {row : Approval (Contract k)} (ht : t.Granted k row) :
    ∀ k' id, t ≠ .decided k' id := by
  rintro k' id rfl
  rcases ht with h | h <;> cases h

theorem granted_of_quiet {k : Kind} {row : Approval (Contract k)} (u : Stage) (c : Call)
    (hu : u.Granted k row)
    (hc : Quiet c) :
    (permit P lib executor).allowed u c ∧ ∀ answer, Stage.Granted k row (u.next c answer) := by
  have hquiet : u.Allows P lib executor c ∧ ∀ answer, u.next c answer = u :=
    next_of_quiet hu.ne_decided hc
  obtain ⟨hallowed, hnext⟩ := hquiet
  exact ⟨hallowed, fun answer => by rwa [hnext answer]⟩

/-- **One write under the permit**, of the bytes that the row has recorded. -/
theorem writeContract_follows {row : Approval WriteContract} :
    (writeContract P row).Ensures (permit P lib executor) x (.permit .write row)
      fun _ _ t => t.Granted .write row := by
  refine ensures_quiet_bind (quiet_perform ⟨rfl, rfl⟩) nofun (fun content y => ?_)
    fun _ _ => .inl rfl
  split
  · exact .inl rfl
  next hhash =>
  refine Act.ensures_call ⟨rfl, fun _ => ?_⟩ fun _ => .inr rfl
  exact .write row.contract content (not_not.mp hhash)

theorem attemptWrite_follows {row : Approval WriteContract} :
    (attemptWrite P approvalId row).Ensures (permit P lib executor) x (.permit .write row)
      fun _ _ t => t.Granted .write row := by
  have hstage : ∀ k' id, Stage.permit .write row ≠ .decided k' id := nofun
  have hkept : Stage.Granted .write row (.permit .write row) := .inl rfl
  refine ensures_quiet_bind quiet_startExecution hstage (fun armed y => ?_) fun _ _ => hkept
  split
  · exact ensures_quiet quiet_quarantinedResult hstage fun _ _ => hkept
  refine Act.ensures_bind (writeContract_follows.mono fun out y t ht =>
    ⟨fun receipt _ => ?_, fun _ _ => ht⟩)
  exact quiet_recordWrite.ensures (I := Stage.Granted .write row) granted_of_quiet ht
    fun _ _ _ h => h

/-- `approve_and_execute` of the write service. -/
theorem writeAndExecute_follows {signedProof : PyVal} :
    (writeAndExecute P lib approvalId operator signedProof).Ensures (permit P lib executor) x
      (.undecided .write approvalId) fun _ _ _ => True := by
  refine ensures_quiet_bind quiet_trusted nofun (fun _ y => ?_) (by simp)
  refine Act.ensures_bind (approve_follows.mono fun out y t h => ⟨fun row hrow => ?_, by simp⟩)
  obtain rfl := h row hrow
  have hstage : ∀ k' id, Stage.permit .write row ≠ .decided k' id := nofun
  refine ensures_quiet_bind (quiet_perform ⟨rfl, rfl⟩) hstage (fun task y => ?_) (by simp)
  refine ensures_quiet_bind quiet_audit hstage (fun _ y => ?_) (by simp)
  refine ensures_quiet_bind quiet_takeRefs hstage (fun _ y => ?_) (by simp)
  refine Act.ensures_tryCatch (attemptWrite_follows.mono fun out y t ht => ⟨by simp, fun e _ => ?_⟩)
  split
  · exact ensures_quiet quiet_quarantineWrite ht.ne_decided (by simp)
  · trivial

/-- **One run under the permit**, of the command that the row has recorded. -/
theorem runCommand_follows {row : Approval ShellContract} {command : Command}
    (hcommand : contractCommand P lib row.contract = .ok command) :
    (runCommand executor command).Ensures (permit P lib executor) x (.permit .shell row)
      fun _ _ t => t.Granted .shell row := by
  refine ensures_quiet_bind (fun _ => trivial) nofun (fun _ y => ?_) fun _ _ => .inl rfl
  split
  · exact .inl rfl
  next path hpath =>
  exact Act.ensures_call ⟨rfl, fun _ => carriesOut_command hcommand hpath⟩ fun _ => .inr rfl

theorem attemptRun_follows {row : Approval ShellContract} :
    (attemptRun P lib executor approvalId row).Ensures (permit P lib executor) x
    (.permit .shell row) fun _ _ t => t.Granted .shell row := by
  have hstage : ∀ k' id, Stage.permit .shell row ≠ .decided k' id := nofun
  have hkept : Stage.Granted .shell row (.permit .shell row) := .inl rfl
  refine Act.ensures_bind (Act.ensures_lift ⟨fun command hcommand => ?_, fun _ _ => hkept⟩)
  refine ensures_quiet_bind (fun _ => trivial) hstage (fun _ y => ?_) fun _ _ => hkept
  refine ensures_quiet_bind (quiet_perform ⟨rfl, rfl⟩) hstage (fun expired y => ?_) fun _ _ => hkept
  refine ensures_quiet_bind (fun _ => trivial) hstage (fun asks y => ?_) fun _ _ => hkept
  split
  · exact hkept
  refine ensures_quiet_bind quiet_startExecution hstage (fun armed y => ?_) fun _ _ => hkept
  split
  · exact ensures_quiet quiet_quarantinedResult hstage fun _ _ => hkept
  refine Act.ensures_bind ((runCommand_follows hcommand).mono fun out y t ht =>
    ⟨fun _ _ => ?_, fun _ _ => ht⟩)
  exact quiet_recordRun.ensures (I := Stage.Granted .shell row) granted_of_quiet ht fun _ _ _ h => h

/-- `approve_and_execute` of the shell service. -/
theorem shellAndExecute_follows {signedProof : PyVal} :
    (shellAndExecute P lib executor approvalId operator signedProof).Ensures
    (permit P lib executor) x (.undecided .shell approvalId) fun _ _ _ => True := by
  refine ensures_quiet_bind quiet_trusted nofun (fun _ y => ?_) (by simp)
  refine Act.ensures_bind (approve_follows.mono fun out y t h => ⟨fun row hrow => ?_, by simp⟩)
  obtain rfl := h row hrow
  have hstage : ∀ k' id, Stage.permit .shell row ≠ .decided k' id := nofun
  refine ensures_quiet_bind quiet_audit hstage (fun _ y => ?_) (by simp)
  refine ensures_quiet_bind (quiet_perform ⟨rfl, rfl⟩) hstage (fun task y => ?_) (by simp)
  refine ensures_quiet_bind quiet_takeRefs hstage (fun _ y => ?_) (by simp)
  refine Act.ensures_tryCatch (attemptRun_follows.mono fun out y t ht => ⟨by simp, fun e _ => ?_⟩)
  split
  · exact ensures_quiet quiet_quarantineRun ht.ne_decided (by simp)
  · trivial

end

end Vesta
