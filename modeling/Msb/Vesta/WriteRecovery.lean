import Msb.Vesta.FileWriter

/-!
# Failures of an approved write

One call of `approve_and_execute` of the write service, alone, where any of its steps after the
approval may raise any exception. The `except` clause knows four classes and begins after three
steps that can fail too, the writer replaces the file before it can return its receipt, and the
recovery has steps that can fail in turn. The steps of the `try` are a table of points of failure,
each with what a failure there leaves behind, and a failure is undone where the recovery from its
point goes through.

* `writePoints` — the points of failure of the `try`
* `leavesAsItWas_iff` — which failures leave everything as it was
* `not_leavesAsItWas` — a full disk after the write
-/

namespace Vesta

open Py Ledger Machine

/-! ## The stores around one call -/

/-- The steps that can raise. -/
inductive Step where
  | readApproval (n : Nat)
  /-- The read of the task in a state, after its metadata were written or before. -/
  | readTask (state : TaskState) (recorded : Bool)
  | move (state : TaskState)
  /-- The audit event, with the state of the task. -/
  | note (event : Str) (state : TaskState)
  | killSwitch
  | payload
  | receipt
  | metadata
  | void
  | file (step : FileStep)
  deriving DecidableEq

/-- The stores as one call finds them. `plan` says what a step raises, in the `try` and in the
recovery. -/
structure Scene where
  row : Approval WriteContract
  payload : Bytes
  metadata : List (PyKey × PyVal)
  armed : Bool
  writer : FileWriter
  plan : Bool → Step → Option PyError

/-- What the call changes: the target, the task and the approval. The other fields tell its steps
apart. -/
structure World where
  file : Option Bytes
  task : TaskState
  approval : ApprovalStatus
  reads : Nat := 0
  recorded : Bool := false
  recovering : Bool := false
  deriving DecidableEq

def World.fault (w : World) (scene : Scene) (step : Step) : Option PyError :=
  scene.plan w.recovering step

/-- A step that raises, or has its effect. -/
def attempt {α : Type} (fault : Option PyError) (w : World) (result : Except PyError α × World) :
    Except PyError α × World :=
  match fault with
  | some e => (.error e, w)
  | none => result

/-- `invalid transition` -/
def illegal (source target : TaskState) : Option PyError :=
  if target ∈ allowedTransitions source then none
  else some (taskLifecycleError (lit "invalid transition " ++ source.text ++ lit " -> " ++
    target.text))

/-- The recovery begins with `rollback`, or with the transition to `RECOVERING`. -/
def World.enter (w : World) (state : TaskState) : World :=
  if state = .recovering then { w with recovering := true } else w

section

variable (P : Platform) (scene : Scene)

def Scene.handle (w : World) (c : Call) : c.Answer × World :=
  match c with
  | .verifyTrustworthy => (.ok none, w)
  | .utcNow => (.ok 0, w)
  | .nowText => (.ok [], w)
  | .uuid => (.ok [], w)
  | .insert _ _ => (.ok (), w)
  | .getApproval .write _ =>
    attempt (w.fault scene (.readApproval w.reads)) w
      (.ok { scene.row with status := w.approval }, { w with reads := w.reads + 1 })
  | .getApproval .shell _ => (.error .typeError, w)
  | .approve .. => (.ok false, { w with approval := .approved })
  | .reject .. => (.ok (), w)
  | .void .. =>
    attempt (w.fault scene .void) w
      (if w.approval = .approved then (.ok (), { w with approval := .void })
      else (.error (approvalError vestaApprovalStore.notApproved), w))
  | .getTask _ =>
    attempt (w.fault scene (.readTask w.task (w.recorded && !w.recovering))) w
      (.ok ⟨w.task, scene.metadata, some w.task⟩, w)
  | .transitionTask _ state _ _ =>
    attempt (((w.enter state).fault scene (.move state)).or (illegal w.task state)) (w.enter state)
      (.ok (), { w.enter state with task := state })
  | .updateMetadata .. => attempt (w.fault scene .metadata) w (.ok (), { w with recorded := true })
  | .audit event _ => attempt (w.fault scene (.note event w.task)) w (.ok 1, w)
  | .isArmed => attempt (w.fault scene .killSwitch) w (.ok scene.armed, w)
  | .readBytes _ => attempt (w.fault scene .payload) w (.ok scene.payload, w)
  | .recordJson .. => attempt (w.fault scene .receipt) w (.ok [], w)
  | .write path content expectedSha256 =>
    let out := scene.writer.write P (fun step => w.fault scene (.file step)) w.file path content
      expectedSha256
    (out.1, { w with file := out.2 })
  | .rollback done =>
    let out := scene.writer.rollback P (fun step => scene.plan true (.file step)) w.file done
    (out.1, { w with file := out.2, recovering := true })
  | .bindExpired => (.ok false, w)
  | .popen .. => (.error .typeError, w)

/-! ## The points of failure -/

/-- What a failure leaves: the world, and the receipt that the call holds. -/
abbrev Point := World × Option FileWriteReceipt

/-- The points of a transition. -/
def movePoints (w : World) (receipt : Option FileWriteReceipt) (state : TaskState) :
    List (Option PyError × Point) :=
  let entered := w.enter state
  let moved := { entered with task := state }
  [((entered.fault scene (.move state)).or (illegal w.task state), entered, receipt),
    (moved.fault scene (.readTask state (moved.recorded && !moved.recovering)), moved, receipt),
    (moved.fault scene (.note (lit "task.transition") state), moved, receipt)]

def World.moved (w : World) (state : TaskState) : World := { w.enter state with task := state }

/-- The points of the `try` up to the kill switch. -/
def startPoints (w : World) : List (Option PyError × Point) :=
  let approved := w.moved .approved
  let executing := approved.moved .executing
  movePoints scene w none .approved ++ movePoints scene approved none .executing ++
    [(executing.fault scene .killSwitch, executing, none)]

/-- The points after it, where the switch is armed, up to `_void_approval`. -/
def armedPoints (w : World) : List (Option PyError × Point) := startPoints scene w ++
  movePoints scene ((w.moved .approved).moved .executing) none .quarantined

/-- `approved payload evidence hash changed` -/
def hashError : Option PyError :=
  if P.hexdigest scene.payload ≠ scene.row.contract.payloadSha256 then
    some (evidenceError (lit "approved payload evidence hash changed"))
  else none

/-- The receipt of the write. -/
def Scene.receipt (file : Option Bytes) : FileWriteReceipt :=
  FileWriter.receipt P file scene.row.contract.targetPath scene.payload

/-- The points of the `try` where the switch is not armed. -/
def writePoints (w : World) : List (Option PyError × Point) :=
  let executing := (w.moved .approved).moved .executing
  let written := { executing with file := some scene.payload }
  let receipt := some (scene.receipt P w.file)
  let recorded := { written with recorded := true }
  let verifying := recorded.moved .verifying
  startPoints scene w ++
    [(executing.fault scene .payload, executing, none),
      (hashError P scene, executing, none),
      (FileWriter.refusal P scene.writer (fun step => executing.fault scene (.file step)) w.file
        scene.payload scene.row.contract.expectedSha256, executing, none),
      (executing.fault scene (.file .observe), written, none),
      (written.fault scene .receipt, written, receipt),
      (written.fault scene .metadata, written, receipt),
      (recorded.fault scene (.readTask .executing true), recorded, receipt)] ++
    movePoints scene recorded receipt .verifying ++
    [(verifying.fault scene (.note (lit "execution.verified") .verifying), verifying, receipt)] ++
    movePoints scene verifying receipt .completed

/-! ## The claim and its condition -/

/-- A task that no transition leaves. -/
def TaskState.terminal (s : TaskState) : Prop := allowedTransitions s = []

/-- The target is as it was, the task is closed, and the approval is void. -/
def World.Restored (file : Option Bytes) (w : World) : Prop :=
  w.file = file ∧ w.task.terminal ∧ w.approval = .void

/-- A call that does not return `completed` has left everything as it was. -/
def LeavesAsItWas (file : Option Bytes) (out : (Except PyError ServiceResult × Locals) × World) :
    Prop :=
  (∀ r, out.1.1 = .ok r → r.status ≠ lit "completed") → out.2.Restored file

/-- The points of the two transitions of the recovery. -/
def closePoints (w : World) (receipt : Option FileWriteReceipt) : List (Option PyError × Point) :=
  movePoints scene w receipt .recovering ++ movePoints scene (w.moved .recovering) receipt
    .quarantined

/-- **The recovery goes through**: it restores the file, it closes the task (or the task is closed
already, and the transition is refused), and it voids the approval. -/
structure Recovers (file : Option Bytes) (p : Point) : Prop where
  target : p.2.elim (p.1.file = file) fun receipt =>
    ∀ o ∈ scene.writer.rollbackFaults (fun step => scene.plan true (.file step)) receipt.before,
      o = none
  task : match firstFailure (closePoints scene { p.1 with file } p.2) with
    | none => True
    | some (e, q) => caught ["TaskLifecycleError"] e = true ∧ q.1.task.terminal
  approval : scene.plan true .void = none

/-- The failure is undone. -/
def Undone (file : Option Bytes) (failure : PyError × Point) : Prop :=
  caught writeFailures failure.1 = true ∧ Recovers scene file failure.2

/-- Where the switch is armed and the task is quarantined: the approval is voided, now or in the
recovery. -/
def VoidsArmed (file : Option Bytes) (w : World) : Prop :=
  ∀ e, scene.plan false .void = some e → caught ["ApprovalError"] e = false ∧
    Undone scene file (e, (((w.moved .approved).moved .executing).moved .quarantined), none)

/-- The world right after the approval has been read. -/
def World.begin (file : Option Bytes) (task : TaskState) : World :=
  ⟨file, task, .approved, 1, false, false⟩

/-- Nothing fails between the approval and the `try`, and what fails in the `try` is undone. -/
structure Undoes (file : Option Bytes) (task : TaskState) : Prop where
  readApproval : scene.plan false (.readApproval 0) = none
  readTask : scene.plan false (.readTask task false) = none
  note : scene.plan false (.note (lit "approval.decided") task) = none
  refs : ∃ refs, iterate ((getItem scene.metadata (lit "evidence_refs")).getD (.list [])) = .ok refs
  body : match firstFailure (if scene.armed then armedPoints scene (.begin file task)
      else writePoints P scene (.begin file task)) with
    | some failure => Undone scene file failure
    | none => scene.armed = true → VoidsArmed scene file (.begin file task)

end

/-! ## The steps -/

section

variable {P : Platform} {scene : Scene} {w : World} {x : Locals}

/-- What a failure leaves. -/
def Left (p : Point) (x : Locals) (w : World) : Prop := w = p.1 ∧ x.receipt = p.2

/-- A call that raises or has its effect is one point. -/
theorem passes_attempt {c : Call} {o : Option PyError} {w₁ w₂ : World} {a : c.Result}
    (h : scene.handle P w c = attempt o w₁ (.ok a, w₂)) :
    (perform c).Passes (scene.handle P) x w [(o, w₁, x.receipt)] Left fun b y t => b = a ∧ y = x ∧
        t = w₂ := by
  refine Act.passes_call (fun e he => ⟨w₁, ?_, rfl, rfl⟩) fun ho => ⟨a, w₂, ?_, rfl, rfl, rfl⟩
  · rw [h, he]
    rfl
  · rw [h, ho]
    rfl

/-- The event of a step. -/
theorem passes_audit {event : String} {payload : PyVal} :
    (audit event payload).Passes (scene.handle P) x w
      [(w.fault scene (.note (lit event) w.task), w, x.receipt)] Left
      fun _ y t => y.receipt = x.receipt ∧ t = w := by
  have hcall : (perform (.audit (lit event) payload)).Passes (scene.handle P) x w _ Left _ :=
    passes_attempt rfl
  refine hcall.bind [] ?_
  rintro a y t ⟨rfl, rfl, rfl⟩
  exact Act.passes_nil rfl ⟨rfl, rfl⟩

theorem passes_transition {taskId reason : Str} {state : TaskState} {metadata : PyVal} :
    (transition taskId state reason metadata).Passes (scene.handle P) x w
    (movePoints scene w x.receipt state) Left
      fun _ y t => y.receipt = x.receipt ∧ t = w.moved state := by
  have hcommit : (perform (.transitionTask taskId state reason metadata)).Passes
      (scene.handle P) x w _ Left _ :=
    passes_attempt rfl
  have hmove : (transitionTask taskId state reason metadata).Passes (scene.handle P) x w
      (([(((w.enter state).fault scene (.move state)).or (illegal w.task state), w.enter state,
        x.receipt)] ++
        [((w.moved state).fault scene
          (.readTask state ((w.moved state).recorded && !(w.moved state).recovering)),
          w.moved state, x.receipt)])) Left fun _ y t => y = x ∧ t = w.moved state := by
    refine hcommit.bind _ ?_
    rintro a y t ⟨rfl, rfl, rfl⟩
    have hread : (perform (.getTask taskId)).Passes (scene.handle P) y (w.moved state) _ Left _ :=
      passes_attempt rfl
    exact hread.mono fun _ _ _ h => h.2
  refine hmove.bind [_] ?_
  rintro a y t ⟨rfl, rfl⟩
  exact passes_audit

/-- What no transition changes. -/
theorem mem_movePoints {receipt : Option FileWriteReceipt} {state : TaskState} {o : Option PyError}
    {q : Point} (h : (o, q) ∈ movePoints scene w receipt state) :
    q.1.file = w.file ∧ q.1.approval = w.approval ∧ q.2 = receipt ∧
        q.1.recovering = (w.enter state).recovering := by
  have henter : (w.enter state).file = w.file ∧ (w.enter state).approval = w.approval := by
    unfold World.enter
    split
    · exact ⟨rfl, rfl⟩
    · exact ⟨rfl, rfl⟩
  simp only [movePoints, List.mem_cons, Prod.mk.injEq, List.not_mem_nil, or_false] at h
  rcases h with ⟨-, rfl⟩ | ⟨-, rfl⟩ | ⟨-, rfl⟩
  · exact ⟨henter.1, henter.2, rfl, rfl⟩
  · exact ⟨henter.1, henter.2, rfl, rfl⟩
  · exact ⟨henter.1, henter.2, rfl, rfl⟩

/-! ## `_void_approval` -/

/-- The points of `_void_approval`. -/
def voidPoints (scene : Scene) (w : World) (receipt : Option FileWriteReceipt) :
    List (Option PyError × Point) :=
  let void := { w with approval := .void }
  let read := { void with reads := w.reads + 1 }
  let again := { void with reads := w.reads + 2 }
  [((w.fault scene .void).or (if w.approval = .approved then none
      else some (approvalError vestaApprovalStore.notApproved)), w, receipt),
    (void.fault scene (.readApproval w.reads), void, receipt),
    (read.fault scene (.readApproval (w.reads + 1)), read, receipt),
    (again.fault scene (.note (lit "approval.voided") w.task), again, receipt)]

/-- A call that only answers. -/
theorem passes_answer {c : Call} {a : c.Result} (h : scene.handle P w c = (.ok a, w)) :
    (perform c).Passes (scene.handle P) x w [] Left fun b y t => b = a ∧ y = x ∧ t = w :=
  Act.passes_nil (Act.run_call h) ⟨rfl, rfl, rfl⟩

theorem passes_voidApproval {approvalId reason : Str} :
    (do
      let _ ← void .write approvalId reason
      let row ← perform (.getApproval .write approvalId)
      audit "approval.voided"
        (fields [("approval_id", .str approvalId), ("task_id", .str row.taskId),
        ("reason", .str reason)]) : Svc Unit).Passes (scene.handle P) x w
        (voidPoints scene w x.receipt) Left
      fun _ y t => y.receipt = x.receipt ∧
          t = { w with approval := .void, reads := w.reads + 2 } := by
  have hvoid : (void .write approvalId reason).Passes (scene.handle P) x w
      (([] ++ ([((w.fault scene .void).or (if w.approval = .approved then none
          else some (approvalError vestaApprovalStore.notApproved)), w, x.receipt)] ++
        [(World.fault { w with approval := .void } scene (.readApproval w.reads),
          { w with approval := .void }, x.receipt)]))) Left
      fun _ y t => y = x ∧ t = { w with approval := .void, reads := w.reads + 1 } := by
    refine (passes_answer (a := []) rfl).bind _ ?_
    rintro _ y t ⟨rfl, rfl, rfl⟩
    have hmark : scene.handle P t (.void .write approvalId [] reason) =
        attempt ((t.fault scene .void).or (if t.approval = .approved then none
          else some (approvalError vestaApprovalStore.notApproved))) t
          (.ok (), { t with approval := .void }) := by
      show attempt (t.fault scene .void) t _ = _
      cases t.fault scene .void with
      | some e => rfl
      | none =>
        unfold attempt
        by_cases happroved : t.approval = .approved
        · rw [if_pos happroved, if_pos happroved]
          rfl
        · rw [if_neg happroved, if_neg happroved]
          rfl
    refine Act.Passes.bind (passes_attempt hmark) _ ?_
    rintro a y t ⟨rfl, rfl, rfl⟩
    exact Act.Passes.mono (passes_attempt rfl) fun _ _ _ h => h.2
  refine hvoid.bind ([_] ++ [_]) ?_
  rintro a y t ⟨rfl, rfl⟩
  refine Act.Passes.bind (passes_attempt rfl) _ ?_
  rintro row y t ⟨rfl, rfl, rfl⟩
  exact passes_audit

/-- An `except` that swallows some classes. -/
theorem run_swallow {classes : List String} {e : PyError} :
    (if caught classes e then pure () else throw e : Svc Unit).run (scene.handle P) x w =
      ((if caught classes e then .ok () else .error e, x), w) := by
  by_cases h : caught classes e = true
  · rw [if_pos h, if_pos h]
    rfl
  · rw [if_neg h, if_neg h]
    rfl

/-- What `_void_approval` makes of an approval that is in force. -/
structure VoidRuns (scene : Scene) (w : World) (x : Locals)
    (out : (Except PyError Unit × Locals) × World) : Prop where
  receipt : out.1.2.receipt = x.receipt
  file : out.2.file = w.file
  task : out.2.task = w.task
  approval : w.fault scene .void = none → out.2.approval = .void
  fails : ∀ e, w.fault scene .void = some e →
    out.2 = w ∧ out.1.1 = if caught ["ApprovalError"] e then .ok () else .error e

/-- Which step failed decides: the update, or one after it. -/
theorem run_voidApproval {approvalId reason : Str} (hw : w.approval = .approved) :
    VoidRuns scene w x ((voidApproval .write approvalId reason).run (scene.handle P) x w) := by
  have hpasses := @passes_voidApproval P scene w x approvalId reason
  cases hpoints : firstFailure (voidPoints scene w x.receipt) with
  | none =>
    obtain ⟨a, y, t, hrun, hy, rfl⟩ := hpasses.of_none hpoints
    have hvoid : w.fault scene .void = none := by
      have hfirst := List.findSome?_eq_none_iff.mp hpoints _ List.mem_cons_self
      rw [Option.map_eq_none_iff, Option.or_eq_none_iff] at hfirst
      exact hfirst.1
    rw [show (voidApproval .write approvalId reason).run _ x w = _ from Act.run_tryCatch_ok hrun]
    exact ⟨hy, rfl, rfl, fun _ => rfl, fun e he => by rw [hvoid] at he; cases he⟩
  | some failure =>
    obtain ⟨e, q⟩ := failure
    obtain ⟨y, t, hrun, rfl, hreceipt⟩ := hpasses.of_some hpoints
    rw [show (voidApproval .write approvalId reason).run _ x w = _ from
      (Act.run_tryCatch_error hrun).trans run_swallow]
    cases hvoid : w.fault scene .void with
    | some e' =>
      have hfirst : firstFailure (voidPoints scene w x.receipt) = some (e', w, x.receipt) := by
        simp [voidPoints, firstFailure, hvoid]
      obtain ⟨rfl, rfl⟩ := Prod.mk.inj (Option.some.inj (hpoints.symm.trans hfirst))
      refine ⟨hreceipt, rfl, rfl, fun h => ?_, fun e he => ?_⟩
      · rw [hvoid] at h
        cases h
      · obtain rfl := Option.some.inj (hvoid.symm.trans he)
        exact ⟨rfl, rfl⟩
    | none =>
      have hq := mem_of_firstFailure hpoints
      rw [voidPoints, hvoid, hw] at hq
      simp only [if_true, Option.or_none, List.mem_cons, Prod.mk.injEq, reduceCtorEq,
        false_and, false_or, List.not_mem_nil, or_false] at hq
      rcases hq with ⟨-, rfl⟩ | ⟨-, rfl⟩ | ⟨-, rfl⟩
      · exact ⟨hreceipt, rfl, rfl, fun _ => rfl, fun e he => by rw [hvoid] at he; cases he⟩
      · exact ⟨hreceipt, rfl, rfl, fun _ => rfl, fun e he => by rw [hvoid] at he; cases he⟩
      · exact ⟨hreceipt, rfl, rfl, fun _ => rfl, fun e he => by rw [hvoid] at he; cases he⟩

/-! ## The recovery -/

/-- The points at which a call can fail, with the file that it began with. -/
structure Point.Sound (P : Platform) (scene : Scene) (file : Option Bytes) (p : Point) : Prop where
  approval : p.1.approval = .approved
  receipt : p.2 = none ∨ p.2 = some (scene.receipt P file)

/-- `rollback` restores the file, or ends the call with the approval in force. -/
theorem run_undoWrite {file : Option Bytes} {p : Point} (hp : p.Sound P scene file)
    (hleft : Left p x w) :
    (p.2 = none ∧ ∃ v, undoWrite.run (scene.handle P) x w = ((.ok v, x), w)) ∨
    (p.2 ≠ none ∧
      (∀ o ∈ scene.writer.rollbackFaults (fun step => scene.plan true (.file step)) file,
        o = none) ∧
      ∃ v, undoWrite.run (scene.handle P) x w = ((.ok v, x), { w with file, recovering := true })) ∨
    (p.2 ≠ none ∧
      (¬ ∀ o ∈ scene.writer.rollbackFaults (fun step => scene.plan true (.file step)) file,
        o = none) ∧
      ∃ e t, undoWrite.run (scene.handle P) x w = ((.error e, x), t) ∧ t.approval = .approved) := by
  obtain ⟨rfl, hreceipt⟩ := hleft
  have hlocals : (Act.locals : Svc Locals).run (scene.handle P) x p.1 = ((.ok x, x), p.1) := rfl
  rcases hp.receipt with hnone | hsome
  · refine .inl ⟨hnone, fields [("ok", .bool true), ("performed", .bool false)], ?_⟩
    refine (Act.run_bind_ok hlocals).trans ?_
    rw [hreceipt, hnone]
    rfl
  · have hperform : undoWrite.run (scene.handle P) x p.1 =
        (do
          let undone : Rollback ← perform (.rollback (scene.receipt P file))
          pure (fields [("performed", .bool true), ("ok", .bool undone.ok),
            ("path", .str undone.path),
            ("restored_sha256", optText undone.restoredSha256)]) : Svc PyVal).run
            (scene.handle P) x p.1 := by
      refine (Act.run_bind_ok hlocals).trans ?_
      rw [hreceipt, hsome]
    rw [hperform]
    by_cases hfaults : ∀ o ∈ scene.writer.rollbackFaults (fun step => scene.plan true (.file step))
      file, o = none
    · obtain ⟨undone, hrollback⟩ := FileWriter.rollback_restores hfaults (P := P) p.1.file
        scene.row.contract.targetPath scene.payload
      have hcall : scene.handle P p.1 (.rollback (scene.receipt P file)) =
          (.ok undone, { p.1 with file, recovering := true }) := by
        show ((FileWriter.rollback P scene.writer _ p.1.file (scene.receipt P file)).1, _) = _
        rw [Scene.receipt, hrollback]
      exact .inr (.inl ⟨by rw [hsome]; exact Option.some_ne_none _, hfaults, _,
        (Act.run_bind_ok (Act.run_call hcall)).trans rfl⟩)
    · obtain ⟨e, after, hrollback⟩ := FileWriter.rollback_raises hfaults (P := P) p.1.file
        scene.row.contract.targetPath scene.payload
      have hcall : scene.handle P p.1 (.rollback (scene.receipt P file)) =
          (.error e, { p.1 with file := after, recovering := true }) := by
        show ((FileWriter.rollback P scene.writer _ p.1.file (scene.receipt P file)).1, _) = _
        rw [Scene.receipt, hrollback]
      exact .inr (.inr ⟨by rw [hsome]; exact Option.some_ne_none _, hfaults, e,
        { p.1 with file := after, recovering := true }, Act.run_bind_error (Act.run_call hcall),
        hp.approval⟩)

/-! ### The task and the approval -/

/-- The two transitions of the recovery. -/
def closing (taskId error : Str) (metadata : PyVal) : Svc Unit :=
  tryCatch
    (do
      transition taskId .recovering error metadata
      transition taskId .quarantined
        (lit "write execution failed; operator review required") metadata)
    fun e => if caught ["TaskLifecycleError"] e then pure () else throw e

/-- What follows them. -/
def finishing (taskId approvalId error : Str) (rollback evidenceRefs : PyVal) : Svc ServiceResult :=
  do
  voidApproval .write approvalId error
  audit "execution.failed" (fields [("task_id", .str taskId), ("approval_id", .str approvalId),
    ("error", .str error), ("rollback", rollback), ("evidence_refs", evidenceRefs)])
  quarantinedResult taskId approvalId error (some rollback)

theorem quarantineWrite_eq {taskId approvalId error : Str} :
    quarantineWrite taskId approvalId error = (do
      let rollback ← undoWrite
      let evidenceRefs ← refs
      closing taskId error (fields [("rollback", rollback), ("evidence_refs", evidenceRefs)])
      finishing taskId approvalId error rollback evidenceRefs) := rfl

@[simp]
theorem file_moved {state : TaskState} : (w.moved state).file = w.file := by
  unfold World.moved World.enter
  split
  · rfl
  · rfl

@[simp]
theorem approval_moved {state : TaskState} : (w.moved state).approval = w.approval := by
  unfold World.moved World.enter
  split
  · rfl
  · rfl

@[simp]
theorem task_moved {state : TaskState} : (w.moved state).task = state := rfl

/-- The recovery goes on in the world `u`. -/
def Closes (scene : Scene) (u : World) (receipt : Option FileWriteReceipt) : Prop :=
  match firstFailure (closePoints scene u receipt) with
  | none => True
  | some (e, q) => caught ["TaskLifecycleError"] e = true ∧ q.1.task.terminal

/-- What no transition of the recovery changes. -/
theorem mem_closePoints {u : World} {receipt : Option FileWriteReceipt} {o : Option PyError}
    {q : Point} (h : (o, q) ∈ closePoints scene u receipt) :
    q.1.file = u.file ∧ q.1.approval = u.approval ∧ q.2 = receipt ∧ q.1.recovering = true := by
  rcases List.mem_append.mp h with h | h
  · exact mem_movePoints h
  · obtain ⟨hfile, happroval, hreceipt, hrecovering⟩ := mem_movePoints h
    exact ⟨hfile.trans file_moved, happroval.trans approval_moved, hreceipt, hrecovering⟩

theorem passes_close {taskId error : Str} {metadata : PyVal} :
    (do
      transition taskId .recovering error metadata
      transition taskId .quarantined (lit "write execution failed; operator review required")
        metadata : Svc Unit).Passes (scene.handle P) x w (closePoints scene w x.receipt) Left
      fun _ y t => y.receipt = x.receipt ∧ t = (w.moved .recovering).moved .quarantined := by
  refine passes_transition.bind _ ?_
  rintro a y t ⟨hy, rfl⟩
  rw [← hy]
  exact passes_transition

/-- The end of `finishing`: nothing changes, and what it returns is not `completed`. -/
theorem run_reported {event : String} {payload : PyVal} {taskId approvalId error : Str}
    {rollback : Option PyVal} : ∃ out, ((do
      audit event payload
      quarantinedResult taskId approvalId error rollback : Svc ServiceResult).run
        (scene.handle P) x w) = (out, w) ∧
      ∀ r, out.1 = .ok r → r.status = lit "quarantined" := by
  have hpasses : (do
      audit event payload
      quarantinedResult taskId approvalId error rollback : Svc ServiceResult).Passes
        (scene.handle P) x w
      ([(w.fault scene (.note (lit event) w.task), w, x.receipt)] ++ []) Left
      fun r _ t => r.status = lit "quarantined" ∧ t = w := by
    refine passes_audit.bind _ ?_
    rintro a y t ⟨-, rfl⟩
    exact Act.passes_nil rfl ⟨rfl, rfl⟩
  rw [List.append_nil] at hpasses
  cases hnote : w.fault scene (.note (lit event) w.task) with
  | some e =>
    obtain ⟨y, t, hrun, rfl, -⟩ :=
      hpasses.of_some (e := e) (p := (w, x.receipt)) (by rw [hnote]; rfl)
    exact ⟨_, hrun, fun r hr => by cases hr⟩
  | none =>
    obtain ⟨a, y, t, hrun, hstatus, rfl⟩ := hpasses.of_none (by rw [hnote]; rfl)
    refine ⟨_, hrun, fun r hr => ?_⟩
    obtain rfl := Except.ok.inj hr
    exact hstatus

/-- The approval is void, or its update has failed. -/
theorem run_finishing {taskId approvalId error : Str} {rollback evidenceRefs : PyVal}
    (hw : w.approval = .approved) {out : (Except PyError ServiceResult × Locals) × World}
    (hout : (finishing taskId approvalId error rollback evidenceRefs).run
      (scene.handle P) x w = out) :
    out.2.file = w.file ∧ out.2.task = w.task ∧
      (out.2.approval = .void ↔ w.fault scene .void = none) ∧
      ∀ r, out.1.1 = .ok r → r.status = lit "quarantined" := by
  have hvoid :
      VoidRuns scene w x ((voidApproval .write approvalId error).run (scene.handle P) x w) :=
    run_voidApproval hw
  have happroval : ((voidApproval .write approvalId error).run (scene.handle P) x w).2.approval =
    .void ↔ w.fault scene .void = none := by
    refine ⟨fun h => ?_, hvoid.approval⟩
    cases hfault : w.fault scene .void with
    | none => rfl
    | some e =>
      rw [(hvoid.fails e hfault).1, hw] at h
      cases h
  have hfile := hvoid.file
  have htask := hvoid.task
  rcases hrun : (voidApproval .write approvalId error).run (scene.handle P) x w with ⟨⟨e | a, y⟩, t⟩
  · rw [hrun] at hfile htask happroval
    rw [finishing, Act.run_bind_error hrun] at hout
    subst hout
    exact ⟨hfile, htask, happroval, fun r hr => by cases hr⟩
  · rw [hrun] at hfile htask happroval
    rw [finishing, Act.run_bind_ok hrun] at hout
    obtain ⟨ended, hended, hstatus⟩ :=
      @run_reported P scene t y "execution.failed" (fields [("task_id", .str taskId),
      ("approval_id", .str approvalId), ("error", .str error), ("rollback", rollback),
      ("evidence_refs", evidenceRefs)]) taskId approvalId error (some rollback)
    rw [← hout, hended]
    exact ⟨hfile, htask, happroval, hstatus⟩

/-- **The recovery from the world `u`.** -/
theorem run_closeAndFinish {taskId approvalId error : Str} {metadata rollback evidenceRefs : PyVal}
    {file : Option Bytes} {u : World} (hu : u.approval = .approved)
    {out : (Except PyError ServiceResult × Locals) × World}
    (hout : (do
      closing taskId error metadata
      finishing taskId approvalId error rollback evidenceRefs : Svc ServiceResult).run
        (scene.handle P) x u = out) :
    (out.2.Restored file ↔ u.file = file ∧ Closes scene u x.receipt ∧
      scene.plan true .void = none) ∧ ∀ r, out.1.1 = .ok r → r.status = lit "quarantined" := by
  -- the world in which the approval is voided
  have hfinish : ∀ y t, t.file = u.file → t.approval = .approved → t.recovering = true →
      (closing taskId error metadata).run (scene.handle P) x u = ((.ok (), y), t) →
      (out.2.Restored file ↔ u.file = file ∧ t.task.terminal ∧ scene.plan true .void = none) ∧
        ∀ r, out.1.1 = .ok r → r.status = lit "quarantined" := by
    intro y t hfile happroval hrecovering hclosing
    rw [Act.run_bind_ok hclosing] at hout
    obtain ⟨houtFile, houtTask, houtApproval, hstatus⟩ := run_finishing happroval hout
    refine ⟨?_, hstatus⟩
    unfold World.Restored
    rw [houtFile, houtTask, houtApproval, hfile, World.fault, hrecovering]
  have hpasses := @passes_close P scene u x taskId error metadata
  unfold Closes
  cases hpoints : firstFailure (closePoints scene u x.receipt) with
  | none =>
    obtain ⟨a, y, t, hrun, -, rfl⟩ := hpasses.of_none hpoints
    obtain ⟨hiff, hstatus⟩ :=
      hfinish y _ (by simp) (by simpa using hu) rfl (Act.run_tryCatch_ok hrun)
    refine ⟨hiff.trans ?_, hstatus⟩
    rw [task_moved, show TaskState.quarantined.terminal ↔ True from iff_true_intro rfl]
  | some failure =>
    obtain ⟨e, q⟩ := failure
    obtain ⟨y, t, hrun, rfl, -⟩ := hpasses.of_some hpoints
    obtain ⟨hfile, happroval, -, hrecovering⟩ := mem_closePoints (mem_of_firstFailure hpoints)
    have hclosing : (closing taskId error metadata).run (scene.handle P) x u = _ :=
      (Act.run_tryCatch_error hrun).trans run_swallow
    by_cases hcaught : caught ["TaskLifecycleError"] e = true
    · rw [if_pos hcaught] at hclosing
      obtain ⟨hiff, hstatus⟩ := hfinish y q.1 hfile (happroval.trans hu) hrecovering hclosing
      refine ⟨hiff.trans ?_, hstatus⟩
      simp only [hcaught, true_and]
    · rw [if_neg hcaught] at hclosing
      rw [Act.run_bind_error hclosing] at hout
      subst hout
      refine ⟨⟨fun h => ?_, fun h => absurd h.2.1.1 hcaught⟩, fun r hr => by cases hr⟩
      have hvoid : q.1.approval = .void := h.2.2
      rw [happroval, hu] at hvoid
      cases hvoid

/-- **The recovery from a point of failure.** -/
theorem restored_quarantineWrite {taskId approvalId error : Str} {file : Option Bytes} {p : Point}
    (hp : p.Sound P scene file) (hleft : Left p x w)
    {out : (Except PyError ServiceResult × Locals) × World}
    (hout : (quarantineWrite taskId approvalId error).run (scene.handle P) x w = out) :
    (out.2.Restored file ↔ Recovers scene file p) ∧ ∀ r, out.1.1 = .ok r →
        r.status = lit "quarantined" := by
  rw [quarantineWrite_eq] at hout
  have hundo := run_undoWrite hp hleft
  obtain ⟨rfl, hreceipt⟩ := hleft
  have hrefs : ∀ u, refs.run (scene.handle P) x u = ((.ok (.list x.evidenceRefs), x), u) :=
    fun _ => rfl
  rcases hundo with ⟨hnone, v, hrun⟩ | ⟨hsome, hfaults, v, hrun⟩ | ⟨hsome, hfaults, e, t, hrun, ht⟩
  · -- nothing was written, or the writer has not returned
    rw [Act.run_bind_ok hrun, Act.run_bind_ok (hrefs _)] at hout
    obtain ⟨hiff, hstatus⟩ := run_closeAndFinish hp.approval hout
    refine ⟨hiff.trans ⟨?_, ?_⟩, hstatus⟩
    · rintro ⟨rfl, hcloses, hvoid⟩
      refine ⟨?_, hreceipt ▸ hcloses, hvoid⟩
      rw [hnone]
      rfl
    · rintro ⟨htarget, hcloses, hvoid⟩
      rw [hnone] at htarget
      obtain rfl : p.1.file = file := htarget
      exact ⟨rfl, hreceipt ▸ hcloses, hvoid⟩
  · rw [Act.run_bind_ok hrun, Act.run_bind_ok (hrefs _)] at hout
    obtain ⟨hiff, hstatus⟩ :=
      run_closeAndFinish (u := { p.1 with file, recovering := true }) hp.approval hout
    refine ⟨hiff.trans ⟨?_, ?_⟩, hstatus⟩
    · rintro ⟨-, hcloses, hvoid⟩
      refine ⟨?_, hreceipt ▸ hcloses, hvoid⟩
      rw [hp.receipt.resolve_left hsome]
      exact hfaults
    · rintro ⟨-, hcloses, hvoid⟩
      exact ⟨rfl, hreceipt ▸ hcloses, hvoid⟩
  · -- the rollback has raised
    rw [Act.run_bind_error hrun] at hout
    subst hout
    refine ⟨⟨fun h => ?_, fun h => absurd ?_ hfaults⟩, fun r hr => by cases hr⟩
    · have hvoid : t.approval = .void := h.2.2
      rw [ht] at hvoid
      cases hvoid
    · have htarget := h.target
      rw [hp.receipt.resolve_left hsome] at htarget
      exact htarget

/-! ## The body of the `try` -/

/-- The points up to the kill switch, and what follows them. -/
theorem leads_start {taskId approvalId : Str} {points : List (Option PyError × Point)}
    {R : (Except PyError Bool × Locals) × World → Prop} (hx : x.receipt = none)
    (hrest : ∀ y : Locals, y.receipt = none →
      (if scene.armed = true then do
        transition taskId .quarantined (lit "kill switch armed") noMetadata
        voidApproval .write approvalId (lit "kill switch armed")
        pure scene.armed
      else pure scene.armed : Svc Bool).Leads (scene.handle P) y
        ((w.moved .approved).moved .executing) points Left R) :
    (startExecution .write taskId approvalId).Leads (scene.handle P) x w
        (startPoints scene w ++ points) Left R := by
  unfold startPoints
  rw [List.append_assoc, List.append_assoc, ← hx]
  refine passes_transition.leads _ ?_
  rintro a y t ⟨hy, rfl⟩
  rw [← hy]
  refine passes_transition.leads _ ?_
  rintro a z t ⟨hz, rfl⟩
  rw [← hz]
  refine Act.Passes.leads (passes_attempt rfl) _ ?_
  rintro armed z' t ⟨rfl, rfl, rfl⟩
  exact hrest z' (hz.trans (hy.trans hx))

/-- The writer has two kinds of failures: before the target is replaced, and after. -/
theorem passes_write {path : Str} {content : Bytes} {expectedSha256 : Option Str} :
    (perform (.write path content expectedSha256)).Passes (scene.handle P) x w
      [(FileWriter.refusal P scene.writer (fun step => w.fault scene (.file step)) w.file content
        expectedSha256, w, x.receipt),
        (w.fault scene (.file .observe), { w with file := some content }, x.receipt)] Left
      fun receipt y t => receipt = FileWriter.receipt P w.file path content ∧ y = x ∧
        t = { w with file := some content } := by
  have hrun : (perform (.write path content expectedSha256)).run (scene.handle P) x w =
      (((scene.writer.write P (fun step => w.fault scene (.file step)) w.file path content
        expectedSha256).1, x), { w with
          file := (scene.writer.write P (fun step => w.fault scene (.file step)) w.file path content
            expectedSha256).2 }) := Act.run_call rfl
  unfold FileWriter.write at hrun
  unfold Act.Passes Act.Leads
  cases hrefusal : FileWriter.refusal P scene.writer (fun step => w.fault scene (.file step))
    w.file content expectedSha256 with
  | some e =>
    rw [hrefusal] at hrun
    exact ⟨x, w, hrun, rfl, rfl⟩
  | none =>
    rw [hrefusal] at hrun
    cases hobserve : w.fault scene (.file .observe) with
    | some e =>
      simp only [hobserve] at hrun
      exact ⟨x, _, hrun, rfl, rfl⟩
    | none =>
      simp only [hobserve] at hrun
      exact ⟨_, x, _, hrun, rfl, rfl, rfl⟩

theorem passes_writeContract {approval : Approval WriteContract}
    (happroval : approval.contract = scene.row.contract) :
    (writeContract P approval).Passes (scene.handle P) x w
      [(w.fault scene .payload, w, x.receipt), (hashError P scene, w, x.receipt),
        (FileWriter.refusal P scene.writer (fun step => w.fault scene (.file step)) w.file
          scene.payload scene.row.contract.expectedSha256, w, x.receipt),
        (w.fault scene (.file .observe), { w with file := some scene.payload }, x.receipt)] Left
      fun receipt y t => receipt = scene.receipt P w.file ∧ y = x ∧
          t = { w with file := some scene.payload } := by
  refine Act.Passes.bind_single (passes_attempt rfl) ?_
  rintro content y t ⟨rfl, rfl, rfl⟩
  rw [happroval]
  refine Act.leads_guard ⟨rfl, rfl⟩ fun _ => ?_
  exact passes_write

theorem passes_recordWrite {taskId approvalId : Str} {receipt : FileWriteReceipt}
    (htask : w.task = .executing) (hrecovering : w.recovering = false) :
    (recordWrite taskId approvalId receipt).Passes (scene.handle P) x w
      ([(w.fault scene .receipt, w, some receipt), (w.fault scene .metadata, w, some receipt),
          (World.fault { w with recorded := true } scene (.readTask .executing true),
            { w with recorded := true }, some receipt)] ++
        movePoints scene { w with recorded := true } (some receipt) .verifying ++
        [((World.moved { w with recorded := true } .verifying).fault scene
          (.note (lit "execution.verified") .verifying),
          World.moved { w with recorded := true } .verifying, some receipt)] ++
        movePoints scene (World.moved { w with recorded := true } .verifying)
          (some receipt) .completed) Left
      fun r _ _ => r.status = lit "completed" := by
  rw [List.append_assoc, List.append_assoc]
  have hset : (Act.setLocals (fun x => { x with receipt := some receipt }) : Svc Unit).Passes
    (scene.handle P) x w []
      Left fun _ y t => y.receipt = some receipt ∧ t = w := Act.passes_nil rfl ⟨rfl, rfl⟩
  refine hset.bind _ ?_
  rintro a y t ⟨hy, rfl⟩
  rw [← hy]
  refine Act.Passes.bind_single (passes_attempt rfl) ?_
  rintro evidenceId z t ⟨rfl, rfl, rfl⟩
  have hadd : (addRef []).Passes (scene.handle P) z t [] Left fun _ y t' =>
      y.receipt = z.receipt ∧ t' = t :=
    Act.passes_nil rfl ⟨rfl, rfl⟩
  refine hadd.bind _ ?_
  rintro a y t ⟨hy, rfl⟩
  have hrefs : refs.Passes (scene.handle P) y t [] Left fun _ y' t' => y' = y ∧ t' = t :=
    Act.passes_nil rfl ⟨rfl, rfl⟩
  refine hrefs.bind _ ?_
  rintro evidenceRefs y' t ⟨rfl, rfl⟩
  have hupdate : (updateMetadata taskId (fields [("evidence_refs", evidenceRefs)])).Passes
    (scene.handle P) y' t ([(t.fault scene .metadata, t, y'.receipt)] ++
        [(World.fault { t with recorded := true } scene (.readTask .executing true),
          { t with recorded := true },
          y'.receipt)]) Left fun _ z' t' => z' = y' ∧ t' = { t with recorded := true } := by
    refine Act.Passes.bind (passes_attempt rfl) _ ?_
    rintro a z' t' ⟨rfl, rfl, rfl⟩
    have hread : (perform (.getTask taskId)).Passes (scene.handle P) z' { t with recorded := true }
        [(World.fault { t with recorded := true } scene (.readTask t.task (true && !t.recovering)),
          { t with recorded := true }, z'.receipt)] Left _ := passes_attempt rfl
    have hstep : Step.readTask t.task (true && !t.recovering) = .readTask .executing true := by
      rw [htask, hrecovering]
      rfl
    rw [hstep] at hread
    exact hread.mono fun _ _ _ h => h.2
  rw [← hy]
  refine hupdate.bind _ ?_
  rintro task z' t' ⟨rfl, rfl⟩
  refine passes_transition.bind _ ?_
  rintro a u t' ⟨hu, rfl⟩
  rw [← hu]
  refine passes_audit.bind _ ?_
  rintro a v t' ⟨hv, rfl⟩
  rw [← hv]
  refine Act.Passes.bind passes_transition [] ?_
  rintro a v t' ⟨-, rfl⟩
  exact Act.passes_nil rfl rfl

/-- **The body where the switch is not armed.** -/
theorem passes_attemptWrite {approvalId : Str} {approval : Approval WriteContract}
    (happroval : approval.contract = scene.row.contract) (harmed : scene.armed = false)
    (hx : x.receipt = none)
    (hrecovering : w.recovering = false) :
    (attemptWrite P approvalId approval).Passes (scene.handle P) x w (writePoints P scene w) Left
      fun r _ _ => r.status = lit "completed" := by
  have hstart : (startExecution .write approval.taskId approvalId).Passes (scene.handle P) x w
      (startPoints scene w ++ []) Left
      fun armed y t => armed = false ∧ y.receipt = none ∧
          t = (w.moved .approved).moved .executing := by
    refine leads_start hx fun y hy => ?_
    rw [harmed]
    exact Act.passes_nil rfl ⟨rfl, hy, rfl⟩
  rw [List.append_nil] at hstart
  unfold writePoints
  simp only [List.append_assoc]
  refine hstart.bind _ ?_
  rintro armed y t ⟨rfl, hy, rfl⟩
  rw [if_neg Bool.false_ne_true]
  rw [← hy]
  refine (passes_writeContract happroval).bind (_ :: _ :: _ :: _) ?_
  rintro receipt z t ⟨rfl, rfl, rfl⟩
  have hrecord :=
    @passes_recordWrite P scene
    { (w.moved .approved).moved .executing with file := some scene.payload } z
    approval.taskId approvalId (scene.receipt P w.file) rfl hrecovering
  simp only [List.append_assoc] at hrecord
  exact hrecord

/-- How the body ends where the switch is armed: `w` is the world in which the approval is to be
voided. -/
structure EndsArmed (scene : Scene) (w : World)
    (out : (Except PyError ServiceResult × Locals) × World) : Prop where
  receipt : out.1.2.receipt = none
  file : out.2.file = w.file
  task : out.2.task = w.task
  approval : w.fault scene .void = none → out.2.approval = .void
  swallowed : ∀ e, w.fault scene .void = some e → out.2 = w ∧
    (caught ["ApprovalError"] e = false → out.1.1 = .error e) ∧
    (caught ["ApprovalError"] e = true → ∃ r, out.1.1 = .ok r)
  status : ∀ r, out.1.1 = .ok r → r.status = lit "quarantined"

/-- **The body where the switch is armed.** -/
theorem leads_attemptWrite {approvalId : Str} {approval : Approval WriteContract}
    (harmed : scene.armed = true) (hx : x.receipt = none) (hw : w.approval = .approved) :
    (attemptWrite P approvalId approval).Leads (scene.handle P) x w (armedPoints scene w) Left
      (EndsArmed scene (((w.moved .approved).moved .executing).moved .quarantined)) := by
  have hstart : (startExecution .write approval.taskId approvalId).Leads (scene.handle P) x w
    (armedPoints scene w)
      Left fun out => ∃ y o z t, y.receipt = none ∧ out = ((o.map fun _ => true, z), t) ∧
        VoidRuns scene (((w.moved .approved).moved .executing).moved .quarantined) y
        ((o, z), t) := by
    refine leads_start hx fun y hy => ?_
    rw [if_pos harmed, harmed, ← List.append_nil (movePoints _ _ _ _), ← hy]
    refine passes_transition.leads _ ?_
    rintro a z t ⟨hz, rfl⟩
    have hvoid : VoidRuns scene (((w.moved .approved).moved .executing).moved .quarantined) z
        ((voidApproval .write approvalId (lit "kill switch armed")).run (scene.handle P) z
          (((w.moved .approved).moved .executing).moved .quarantined)) := run_voidApproval (by
            simpa using hw)
    rcases hrun : (voidApproval .write approvalId (lit "kill switch armed")).run (scene.handle P) z
      (((w.moved .approved).moved .executing).moved .quarantined) with ⟨⟨e | a, u⟩, t⟩
    · rw [hrun] at hvoid
      exact Act.leads_nil ⟨z, .error e, u, t, hz, Act.run_bind_error hrun, hvoid⟩
    · rw [hrun] at hvoid
      exact Act.leads_nil ⟨z, .ok a, u, t, hz, Act.run_bind_ok hrun, hvoid⟩
  refine hstart.bind ?_
  rintro ⟨y, o, z, t, hy, hrun, hvoid⟩
  have hreceipt : z.receipt = none := hvoid.receipt.trans hy
  cases o with
  | error e =>
    rw [Act.run_bind_error hrun]
    refine ⟨hreceipt, hvoid.file, hvoid.task, hvoid.approval, fun e' he' => ?_,
      fun r hr => by cases hr⟩
    obtain ⟨ht, he⟩ := hvoid.fails e' he'
    by_cases hcaught : caught ["ApprovalError"] e' = true
    · rw [if_pos hcaught] at he
      cases he
    · rw [if_neg hcaught] at he
      obtain rfl := Except.error.inj he
      exact ⟨ht, fun _ => rfl, fun h => absurd h hcaught⟩
  | ok a =>
    rw [Act.run_bind_ok hrun]
    refine ⟨hreceipt, hvoid.file, hvoid.task, hvoid.approval, fun e' he' => ?_, fun r hr => ?_⟩
    · obtain ⟨ht, he⟩ := hvoid.fails e' he'
      by_cases hcaught : caught ["ApprovalError"] e' = true
      · exact ⟨ht, fun h => absurd hcaught (by rw [h]; exact Bool.false_ne_true), fun _ => ⟨_, rfl⟩⟩
      · rw [if_neg hcaught] at he
        cases he
    · obtain rfl := Except.ok.inj hr
      rfl

/-! ## A task that is closed -/

/-- The calls that neither touch the target nor approve. -/
def Steady : Call → Prop
  | .write .. | .rollback _ | .approve .. => False
  | _ => True

theorem restored_handle {file : Option Bytes} {c : Call} (hw : w.Restored file) (hc : Steady c) :
    (scene.handle P w c).2.Restored file := by
  obtain ⟨hfile, htask, happroval⟩ := hw
  have hillegal : ∀ state, illegal w.task state ≠ none := by
    intro state
    unfold illegal
    rw [show allowedTransitions w.task = [] from htask, if_neg (List.not_mem_nil)]
    exact Option.some_ne_none _
  have henter : ∀ state, (w.enter state).Restored file := by
    intro state
    unfold World.enter
    split
    · exact ⟨hfile, htask, happroval⟩
    · exact ⟨hfile, htask, happroval⟩
  cases c with
  | transitionTask taskId state reason metadata =>
    obtain ⟨e, he⟩ := Option.ne_none_iff_exists'.mp (hillegal state)
    simp only [Scene.handle, he]
    cases (w.enter state).fault scene (.move state) with
    | some e' => exact henter state
    | none => exact henter state
  | void k approvalId decidedAt reason =>
    simp only [Scene.handle, happroval, reduceCtorEq, if_false, attempt]
    split
    · exact ⟨hfile, htask, happroval⟩
    · exact ⟨hfile, htask, happroval⟩
  | getApproval k approvalId =>
    cases k with
    | write =>
      simp only [Scene.handle, attempt]
      split
      · exact ⟨hfile, htask, happroval⟩
      · exact ⟨hfile, htask, happroval⟩
    | shell => exact ⟨hfile, htask, happroval⟩
  | write | rollback | approve => exact hc.elim
  | getTask | updateMetadata | audit | isArmed | readBytes | recordJson =>
    simp only [Scene.handle, attempt]
    split
    · exact ⟨hfile, htask, happroval⟩
    · exact ⟨hfile, htask, happroval⟩
  | verifyTrustworthy | utcNow | nowText | uuid | insert | reject | bindExpired | popen =>
    exact ⟨hfile, htask, happroval⟩

theorem steady_audit {event : String} {payload : PyVal} : (audit event payload).All Steady :=
  (Act.all_call trivial).bind fun _ _ => trivial

theorem steady_transition {taskId reason : Str} {state : TaskState} {metadata : PyVal} :
    (transition taskId state reason metadata).All Steady := by
  have htask : (transitionTask taskId state reason metadata).All Steady :=
    (Act.all_call trivial).bind fun _ => Act.all_call trivial
  exact htask.bind fun _ => steady_audit

theorem steady_swallow {classes : List String} {e : PyError} :
    (if caught classes e then pure () else throw e : Svc Unit).All Steady := by
  split
  · exact fun _ => trivial
  · exact fun _ => trivial

theorem steady_closeAndFinish {taskId approvalId error : Str}
    {metadata rollback evidenceRefs : PyVal} : (do
      closing taskId error metadata
      finishing taskId approvalId error rollback evidenceRefs : Svc ServiceResult).All Steady := by
  have hvoid : (void .write approvalId error).All Steady :=
    (Act.all_call trivial).bind fun _ => (Act.all_call trivial).bind fun _ => Act.all_call trivial
  have hvoided : (voidApproval .write approvalId error).All Steady := by
    refine Act.All.tryCatch ?_ fun _ => steady_swallow
    exact hvoid.bind fun _ => Act.All.bind (Act.all_call trivial) fun _ => steady_audit
  refine Act.All.bind ?_ fun _ => hvoided.bind fun _ => steady_audit.bind fun _ _ => trivial
  exact Act.All.tryCatch (steady_transition.bind fun _ => steady_transition) fun _ => steady_swallow

/-- A recovery that has nothing left to do. -/
theorem restored_of_closed {taskId approvalId error : Str} {file : Option Bytes}
    (hx : x.receipt = none)
    (hw : w.Restored file) :
    ((quarantineWrite taskId approvalId error).run (scene.handle P) x w).2.Restored file := by
  have hlocals : (Act.locals : Svc Locals).run (scene.handle P) x w = ((.ok x, x), w) := rfl
  have hundo : undoWrite.run (scene.handle P) x w =
      ((.ok (fields [("ok", .bool true), ("performed", .bool false)]), x), w) := by
    refine (Act.run_bind_ok hlocals).trans ?_
    rw [hx]
    rfl
  have hrefs : refs.run (scene.handle P) x w = ((.ok (.list x.evidenceRefs), x), w) := rfl
  rw [quarantineWrite_eq, Act.run_bind_ok hundo, Act.run_bind_ok hrefs]
  have hkeeps : ∀ u c, World.Restored file u → Steady c →
      World.Restored file (scene.handle P u c).2 :=
    fun _ _ => restored_handle
  exact Prog.All.run (scene.handle P) hkeeps (steady_closeAndFinish x) hw

/-! ## What a failure in the body leaves -/

theorem sound_of_mem_movePoints {receipt : Option FileWriteReceipt} {state : TaskState}
    {o : Option PyError}
    {q : Point} {file : Option Bytes} (h : (o, q) ∈ movePoints scene w receipt state)
    (hw : w.approval = .approved)
    (hreceipt : receipt = none ∨ receipt = some (scene.receipt P file)) : q.Sound P scene file := by
  obtain ⟨-, happroval, hq, -⟩ := mem_movePoints h
  exact ⟨happroval.trans hw, hq ▸ hreceipt⟩

theorem sound_of_mem_startPoints {o : Option PyError} {q : Point} {file : Option Bytes}
    (h : (o, q) ∈ startPoints scene w) (hw : w.approval = .approved) : q.Sound P scene file := by
  simp only [startPoints, List.mem_append, List.mem_singleton] at h
  rcases h with (h | h) | h
  · exact sound_of_mem_movePoints h hw (.inl rfl)
  · exact sound_of_mem_movePoints h (by simpa using hw) (.inl rfl)
  · obtain ⟨-, rfl⟩ := Prod.mk.inj h
    exact ⟨by simpa using hw, .inl rfl⟩

theorem sound_of_mem_armedPoints {o : Option PyError} {q : Point} {file : Option Bytes}
    (h : (o, q) ∈ armedPoints scene w) (hw : w.approval = .approved) : q.Sound P scene file := by
  rcases List.mem_append.mp h with h | h
  · exact sound_of_mem_startPoints h hw
  · exact sound_of_mem_movePoints h (by simpa using hw) (.inl rfl)

theorem sound_of_mem_writePoints {o : Option PyError} {q : Point}
    (h : (o, q) ∈ writePoints P scene w)
    (hw : w.approval = .approved) : q.Sound P scene w.file := by
  have hexecuting : ((w.moved .approved).moved .executing).approval = .approved := by simpa using hw
  simp only [writePoints, List.mem_append, List.mem_cons, List.not_mem_nil, or_false, Prod.mk.injEq]
    at h
  rcases h with (((h | h) | h) | ⟨-, rfl⟩) | h
  · exact sound_of_mem_startPoints h hw
  · rcases h with ⟨-, rfl⟩ | ⟨-, rfl⟩ | ⟨-, rfl⟩ | ⟨-, rfl⟩ | ⟨-, rfl⟩ | ⟨-, rfl⟩ | ⟨-, rfl⟩
    all_goals first
      | exact ⟨hexecuting, .inl rfl⟩
      | exact ⟨hexecuting, .inr rfl⟩
  · exact sound_of_mem_movePoints h hexecuting (.inr rfl)
  · exact ⟨by simpa using hw, .inr rfl⟩
  · exact sound_of_mem_movePoints h (by simpa using hw) (.inr rfl)

/-- **A failure in the body, and the recovery from it.** -/
theorem leavesAsItWas_failed {taskId approvalId : Str} {lib : Library} {body : Svc ServiceResult}
    {e : PyError} {file : Option Bytes} {p : Point} {y : Locals} {t : World}
    (hrun : body.run (scene.handle P) x w = ((.error e, y), t)) (hp : p.Sound P scene file)
      (hleft : Left p y t) :
    LeavesAsItWas file ((tryCatch body fun e =>
      if caught writeFailures e then quarantineWrite taskId approvalId (lib.errorText e)
        else throw e).run (scene.handle P) x w) ↔ Undone scene file (e, p) := by
  rw [Act.run_tryCatch_error hrun]
  by_cases hcaught : caught writeFailures e = true
  · rw [if_pos hcaught]
    obtain ⟨hiff, hstatus⟩ := restored_quarantineWrite hp hleft
      (rfl : (quarantineWrite taskId approvalId (lib.errorText e)).run (scene.handle P) y t = _)
    refine ⟨fun h => ⟨hcaught, hiff.mp (h fun r hr => ?_)⟩, fun h _ => hiff.mpr h.2⟩
    rw [hstatus r hr]
    decide
  · rw [if_neg hcaught]
    refine ⟨fun h => ?_, fun h => absurd h.1 hcaught⟩
    have hvoid : t.approval = .void := (h fun r hr => by cases hr).2.2
    rw [hleft.1, hp.approval] at hvoid
    cases hvoid

/-- **The `try` of the call.** -/
theorem leavesAsItWas_body {taskId approvalId : Str} {lib : Library}
    {approval : Approval WriteContract}
    (happroval : approval.contract = scene.row.contract) (hx : x.receipt = none)
    (hw : w.approval = .approved)
    (hrecovering : w.recovering = false) :
    LeavesAsItWas w.file ((tryCatch (attemptWrite P approvalId approval) fun e =>
      if caught writeFailures e then quarantineWrite taskId approvalId (lib.errorText e)
        else throw e).run (scene.handle P) x w) ↔
      match firstFailure (if scene.armed then armedPoints scene w else writePoints P scene w) with
      | some failure => Undone scene w.file failure
      | none => scene.armed = true → VoidsArmed scene w.file w := by
  cases harmed : scene.armed with
  | false =>
    have hpasses :=
      @passes_attemptWrite P scene w x approvalId approval happroval harmed hx hrecovering
    rw [if_neg Bool.false_ne_true]
    cases hpoints : firstFailure (writePoints P scene w) with
    | some failure =>
      obtain ⟨y, t, hrun, hleft⟩ := hpasses.of_some hpoints
      exact leavesAsItWas_failed hrun
        (sound_of_mem_writePoints (mem_of_firstFailure hpoints) hw) hleft
    | none =>
      obtain ⟨r, y, t, hrun, hstatus⟩ := hpasses.of_none hpoints
      rw [Act.run_tryCatch_ok hrun]
      exact ⟨fun _ h => absurd h Bool.false_ne_true, fun _ h => absurd hstatus (h r rfl)⟩
  | true =>
    have hleads := @leads_attemptWrite P scene w x approvalId approval harmed hx hw
    rw [if_pos rfl]
    cases hpoints : firstFailure (armedPoints scene w) with
    | some failure =>
      obtain ⟨y, t, hrun, hleft⟩ := hleads.of_some hpoints
      exact leavesAsItWas_failed hrun
        (sound_of_mem_armedPoints (mem_of_firstFailure hpoints) hw) hleft
    | none =>
      have hends := hleads.of_none hpoints
      have hfault : World.fault (((w.moved .approved).moved .executing).moved .quarantined)
        scene .void = scene.plan false .void := by
        rw [World.fault,
          show (((w.moved .approved).moved .executing).moved .quarantined).recovering = w.recovering
          from rfl, hrecovering]
      have hq : (((w.moved .approved).moved .executing).moved .quarantined).approval =
        .approved := by simpa using hw
      obtain ⟨hreceipt, hfile, htask, hvoid, hfails, hstatus⟩ := hends
      rw [hfault] at hvoid hfails
      rcases hrun : (attemptWrite P approvalId approval).run (scene.handle P) x w with ⟨⟨o, y⟩, t⟩
      rw [hrun] at hreceipt hfile htask hvoid hfails hstatus
      cases hplan : scene.plan false .void with
      | none =>
        -- the approval is void, whatever is raised after it
        have hrestored : t.Restored w.file := by
          refine ⟨hfile.trans (by simp), ?_, hvoid hplan⟩
          rw [show t.task = _ from htask]
          rfl
        refine ⟨fun _ _ e he => (by rw [hplan] at he; cases he), fun _ _ => ?_⟩
        cases o with
        | ok r =>
          rw [Act.run_tryCatch_ok hrun]
          exact hrestored
        | error e =>
          rw [Act.run_tryCatch_error hrun]
          split
          · exact restored_of_closed hreceipt hrestored
          · exact hrestored
      | some e =>
        obtain ⟨ht, hraised, hreturned⟩ := hfails e hplan
        obtain rfl : t = _ := ht
        cases hcaught : caught ["ApprovalError"] e with
        | true =>
          obtain ⟨r, hr⟩ := hreturned hcaught
          obtain rfl : o = .ok r := hr
          rw [Act.run_tryCatch_ok hrun]
          refine ⟨fun h => ?_, fun h => ?_⟩
          · have hvoid := (h fun r' hr' => ?_).2.2
            · rw [hq] at hvoid
              cases hvoid
            · rw [hstatus r' hr']
              decide
          · have hfalse := (h rfl e hplan).1
            rw [hcaught] at hfalse
            cases hfalse
        | false =>
          obtain rfl : o = .error e := hraised hcaught
          have hiff := @leavesAsItWas_failed P scene w x taskId approvalId lib _ e w.file
            (_, none) _ _ hrun ⟨hq, .inl rfl⟩ ⟨rfl, hreceipt⟩
          refine hiff.trans ⟨fun h _ e' he' => ?_, fun h => (h rfl e hplan).2⟩
          obtain rfl := Option.some.inj (hplan.symm.trans he')
          exact ⟨hcaught, h⟩

/-! ## The call -/

/-- `list` of what the metadata hold. -/
def refsError (scene : Scene) : Option PyError :=
  match iterate ((getItem scene.metadata (lit "evidence_refs")).getD (.list [])) with
  | .ok _ => none
  | .error e => some e

/-- The world right after the approval. -/
def World.granted (file : Option Bytes) (task : TaskState) : World :=
  ⟨file, task, .approved, 0, false, false⟩

/-- The points between the approval and the `try`. -/
def grantedPoints (scene : Scene) (file : Option Bytes) (task : TaskState) :
    List (Option PyError × Point) :=
  [(scene.plan false (.readApproval 0), .granted file task, none),
    (scene.plan false (.readTask task false), .begin file task, none),
    (scene.plan false (.note (lit "approval.decided") task), .begin file task, none),
    (refsError scene, .begin file task, none)]

theorem leads_writeAndExecute {lib : Library} {file : Option Bytes} {task : TaskState}
    {approvalId operator : Str}
    {signedProof : PyVal} {R : (Except PyError ServiceResult × Locals) × World → Prop}
    (hbody : ∀ y : Locals, y.receipt = none → ∀ approval : Approval WriteContract,
      approval.contract = scene.row.contract →
      R ((tryCatch (attemptWrite P approvalId approval) fun e =>
        if caught writeFailures e then quarantineWrite approval.taskId approvalId (lib.errorText e)
          else throw e).run (scene.handle P) y (.begin file task))) :
    (writeAndExecute P lib approvalId operator signedProof).Leads (scene.handle P) {}
      ⟨file, task, .pending, 0, false, false⟩ (grantedPoints scene file task) Left R := by
  have htrusted : (trusted .write).Passes (scene.handle P) {}
    ⟨file, task, .pending, 0, false, false⟩ [] Left
      fun _ y t => y = {} ∧ t = ⟨file, task, .pending, 0, false, false⟩ :=
      Act.passes_nil rfl ⟨rfl, rfl⟩
  have happrove : (approve .write approvalId operator).Passes (scene.handle P) {}
      ⟨file, task, .pending, 0, false, false⟩
      [(scene.plan false (.readApproval 0), .granted file task, none)] Left
      fun approval y t => approval = { scene.row with status := .approved } ∧ y = {} ∧
          t = .begin file task := by
    refine Act.Passes.bind_nil (passes_answer rfl) ?_
    rintro now y t ⟨rfl, rfl, rfl⟩
    refine Act.Passes.bind_nil (passes_answer rfl) ?_
    rintro decidedAt y t ⟨rfl, rfl, rfl⟩
    have hgrant : (perform (.approve .write approvalId 0 [] operator)).Passes (scene.handle P) {}
        ⟨file, task, .pending, 0, false, false⟩ [] Left fun expired y t =>
        expired = false ∧ y = {} ∧ t = .granted file task := Act.passes_nil rfl ⟨rfl, rfl, rfl⟩
    refine hgrant.bind _ ?_
    rintro expired y t ⟨rfl, rfl, rfl⟩
    exact passes_attempt rfl
  refine htrusted.leads ([_] ++ ([_] ++ ([_] ++ [_]))) ?_
  rintro a y t ⟨rfl, rfl⟩
  refine happrove.leads _ ?_
  rintro approval y t ⟨rfl, rfl, rfl⟩
  refine Act.Passes.leads (passes_attempt rfl) _ ?_
  rintro found y t ⟨rfl, rfl, rfl⟩
  refine passes_audit.leads _ ?_
  rintro a y t ⟨hy, rfl⟩
  -- references that are no sequence end the call here, before the write
  have hrefs : (takeRefs ⟨task, scene.metadata, some task⟩).Passes (scene.handle P) y
    (.begin file task)
      [(refsError scene, .begin file task, none)] Left fun _ z t => z.receipt = none ∧
      t = .begin file task := by
    unfold refsError
    cases hiterate : iterate ((getItem scene.metadata (lit "evidence_refs")).getD (.list [])) with
    | error e =>
      have hfound : (⟨task, scene.metadata, some task⟩ : Task).evidenceRefs = .error e := hiterate
      refine ⟨y, .begin file task, ?_, rfl, hy⟩
      unfold takeRefs
      rw [hfound]
      rfl
    | ok refs =>
      have hfound : (⟨task, scene.metadata, some task⟩ : Task).evidenceRefs = .ok refs := hiterate
      refine ⟨(), { y with evidenceRefs := refs }, .begin file task, ?_, hy, rfl⟩
      unfold takeRefs
      rw [hfound]
      rfl
  rw [← List.append_nil [(refsError scene, _, _)]]
  refine hrefs.leads _ ?_
  rintro a z t ⟨hz, rfl⟩
  exact Act.leads_nil (hbody z hz _ rfl)

/-- **A failed write leaves everything as it was exactly where its failure is undone**: nothing
fails between the approval and the `try`, what fails in the `try` is of a class that is caught, and
the recovery from there goes through. -/
theorem leavesAsItWas_iff (P : Platform) (lib : Library) (scene : Scene) (file : Option Bytes)
    (task : TaskState) (approvalId operator : Str) (signedProof : PyVal) :
    LeavesAsItWas file
      ((writeAndExecute P lib approvalId operator signedProof).run (scene.handle P) {}
      ⟨file, task, .pending, 0, false, false⟩) ↔ Undoes P scene file task := by
  have hleads := @leads_writeAndExecute P scene lib file task approvalId operator signedProof
    (fun out => LeavesAsItWas file out ↔
      match firstFailure (if scene.armed then armedPoints scene (.begin file task)
          else writePoints P scene (.begin file task)) with
      | some failure => Undone scene file failure
      | none => scene.armed = true → VoidsArmed scene file (.begin file task))
    fun y hy approval happroval => leavesAsItWas_body happroval hy rfl rfl
  cases hpoints : firstFailure (grantedPoints scene file task) with
  | some failure =>
    obtain ⟨y, t, hrun, ht, -⟩ := hleads.of_some hpoints
    have happroval : t.approval = .approved := by
      have hmem := mem_of_firstFailure hpoints
      simp only [grantedPoints, List.mem_cons, Prod.mk.injEq, List.not_mem_nil, or_false] at hmem
      rw [ht]
      rcases hmem with ⟨-, h⟩ | ⟨-, h⟩ | ⟨-, h⟩ | ⟨-, h⟩
      all_goals rw [h]; rfl
    rw [hrun]
    refine ⟨fun h => ?_, fun h => ?_⟩
    · have hvoid : t.approval = .void := (h fun r hr => by cases hr).2.2
      rw [happroval] at hvoid
      cases hvoid
    · obtain ⟨refs, hrefs⟩ := h.refs
      have hnone : firstFailure (grantedPoints scene file task) = none := by
        simp [firstFailure, grantedPoints, refsError, h.readApproval, h.readTask, h.note, hrefs]
      rw [hnone] at hpoints
      cases hpoints
  | none =>
    refine (hleads.of_none hpoints).trans ⟨fun h => ?_, fun h => h.body⟩
    have hnone := List.findSome?_eq_none_iff.mp hpoints
    simp only [grantedPoints, List.mem_cons, List.not_mem_nil, or_false, forall_eq_or_imp,
      forall_eq, Option.map_eq_none_iff] at hnone
    obtain ⟨hreadApproval, hreadTask, hnote, hrefs⟩ := hnone
    refine ⟨hreadApproval, hreadTask, hnote, ?_, h⟩
    unfold refsError at hrefs
    split at hrefs
    next refs hiterate => exact ⟨refs, hiterate⟩
    · cases hrefs

/-- A full disk after the write: the audit event of `VERIFYING` raises, and no class of the `except`
is its class. -/
def fullDisk : Scene where
  row :=
    { approvalId := lit "ack_1", taskId := lit "task_1", bindId := lit "bind_1",
      contract :=
      ⟨lit "report.txt", lit "ev_1", Platform.tagged.hexdigest [0x6e, 0x65, 0x77], none⟩,
      policyVersion := [], expiresAt := [], status := .pending, createdAt := [] }
  payload := [0x6e, 0x65, 0x77]
  metadata := []
  armed := false
  writer := ⟨1048576⟩
  plan recovering step :=
    if recovering = false ∧ step = .note (lit "task.transition") .verifying then
      some (.osError (lit "No space left on device"))
    else none

/-- **The file is written, the task is `VERIFYING`, and the approval is in force.** -/
theorem not_leavesAsItWas :
    ¬ ∀ (P : Platform) (lib : Library) (scene : Scene) (file : Option Bytes) (task : TaskState)
      (approvalId operator : Str) (signedProof : PyVal),
      LeavesAsItWas file
        ((writeAndExecute P lib approvalId operator signedProof).run (scene.handle P) {}
        ⟨file, task, .pending, 0, false, false⟩) := by
  intro h
  have hcall := h Platform.tagged ⟨fun _ => none, fun _ => [], fun _ => []⟩ fullDisk
    (some [0x6f, 0x6c, 0x64]) .waitingApproval (lit "ack_1") (lit "owner") .none
  have hraised :
    ((writeAndExecute Platform.tagged ⟨fun _ => none, fun _ => [], fun _ => []⟩ (lit "ack_1")
      (lit "owner") .none).run (fullDisk.handle Platform.tagged) {}
      ⟨some [0x6f, 0x6c, 0x64], .waitingApproval, .pending, 0, false, false⟩).1.1.toOption.isNone =
          true := by
    decide +kernel
  have hrestored := hcall fun r hr => by
    rw [hr] at hraised
    cases hraised
  have hwritten :
    ((writeAndExecute Platform.tagged ⟨fun _ => none, fun _ => [], fun _ => []⟩ (lit "ack_1")
      (lit "owner") .none).run (fullDisk.handle Platform.tagged) {}
      ⟨some [0x6f, 0x6c, 0x64], .waitingApproval, .pending, 0, false, false⟩).2 =
        { file := some [0x6e, 0x65, 0x77]
          task := .verifying
          approval := .approved
          reads := 1
          recorded := true } := by
    decide +kernel
  rw [hwritten] at hrestored
  exact absurd hrestored.1 (by decide)

end

end Vesta
