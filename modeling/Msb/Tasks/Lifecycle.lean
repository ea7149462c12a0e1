import Msb.Infra.ReadWrite
import Msb.Ledger.AuditChain

/-!
# The life cycle of a task

`tasks/lifecycle.py` and `tasks/events.py`: a task has one row and a list of events. A call reads
the row, decides, and then inserts its event and rewrites the row in one transaction. The read takes
no lock, so any number of other calls may write in between.

* `taskPlan` — what a call decides from the row that it has read
* `serial_lifecycle` — the calls one after the other keep the life cycle
* `run_serializable` — so do concurrent calls that write over the row they have read
* `not_taskSerializable` — two verdicts on one task
-/

namespace Tasks

open Py Ledger Machine

/-! ## States and events -/

inductive TaskState where
  | created
  | planned
  | executing
  | verifying
  | completed
  | failed
  | quarantined
  | denied
  deriving DecidableEq

def TaskState.text : TaskState → Str
  | .created => lit "CREATED"
  | .planned => lit "PLANNED"
  | .executing => lit "EXECUTING"
  | .verifying => lit "VERIFYING"
  | .completed => lit "COMPLETED"
  | .failed => lit "FAILED"
  | .quarantined => lit "QUARANTINED"
  | .denied => lit "DENIED"

/-- `TASK_STATES` -/
def taskStates : List TaskState :=
  [.created, .planned, .executing, .verifying, .completed, .failed, .quarantined, .denied]

/-- `TASK_EVENTS` -/
def taskEvents : List Str :=
  [lit "TASK_CREATED", lit "INTENT_INTERPRETED", lit "PLAN_CREATED", lit "CONTEXT_COMPOSED",
    lit "INVERSION_STARTED", lit "INVERSION_COMPLETED", lit "POLICY_CHECKED",
    lit "CONTRACT_APPROVED", lit "APPROVAL_GRANTED", lit "AGENT_STARTED", lit "AGENT_COMPLETED",
    lit "TOOL_REQUESTED", lit "TOOL_EXECUTED", lit "MUTATION_COMMITTED",
    lit "OBSERVATION_RECORDED", lit "VERIFICATION_STARTED", lit "VERIFICATION_PASSED",
    lit "VERIFICATION_FAILED", lit "EVIDENCE_RECORDED", lit "AUDIT_COMMITTED", lit "MEMORY_STORED",
    lit "MEMORY_CONSOLIDATED", lit "TASK_COMPLETED", lit "TASK_FAILED", lit "TASK_QUARANTINED",
    lit "TASK_DENIED", lit "TASK_RECOVERED"]

/-- `_ALLOWED_TRANSITIONS` -/
def allowedTransitions : TaskState → List TaskState
  | .created => [.planned, .denied, .quarantined]
  | .planned => [.executing, .denied, .quarantined]
  | .executing => [.verifying, .failed, .quarantined]
  | .verifying => [.completed, .failed, .quarantined]
  | .completed => []
  | .failed => []
  | .quarantined => []
  | .denied => []

/-- A state that no transition leaves. -/
def TaskState.terminal (s : TaskState) : Prop := allowedTransitions s = []

/-- `STATE_EVENT` -/
def stateEvent : TaskState → Option Str
  | .created => none
  | .planned => some (lit "PLAN_CREATED")
  | .executing => some (lit "AGENT_STARTED")
  | .verifying => some (lit "VERIFICATION_STARTED")
  | .completed => some (lit "TASK_COMPLETED")
  | .failed => some (lit "TASK_FAILED")
  | .quarantined => some (lit "TASK_QUARANTINED")
  | .denied => some (lit "TASK_DENIED")

def lifecycleError (message : Str) : PyError := .raised (lit "TaskLifecycleError") message

/-- The state that a text names. -/
def TaskState.ofText (text : Str) : Option TaskState := taskStates.find? fun s => s.text = text

/-- `validate_transition`, and the state that it admits. -/
def validateTransition (fromState : TaskState) (toState : Str) : Except PyError TaskState :=
  match TaskState.ofText toState with
  | none => .error (lifecycleError (lit "unknown task state: " ++ toState))
  | some target => do
    raiseIf (target ∉ allowedTransitions fromState)
      (lifecycleError (lit "invalid transition " ++ fromState.text ++ lit " -> " ++ toState))
    .ok target

/-- `event_for_state` -/
def eventForState (toState : Str) : Except PyError Str :=
  match TaskState.ofText toState >>= stateEvent with
  | some event => .ok event
  | none => .error (lifecycleError (lit "state has no canonical event: " ++ toState))

/-! ## The tables -/

/-- The row of the task in `unified_tasks`. -/
structure TaskRow where
  taskId : Str
  state : TaskState
  createdAt : Str
  updatedAt : Str
  body : Str
  deriving DecidableEq

/-- A row of `task_events`. Its id is its place among the rows of all tasks. -/
structure EventRow where
  eventType : Str
  payload : Str
  state : TaskState
  auditSeq : Option Int
  createdAt : Str
  deriving DecidableEq

/-- The row of a task, and its events in the order of their ids. -/
structure TaskStore where
  row : TaskRow
  events : List EventRow
  deriving DecidableEq

/-- The items of a dict. -/
abbrev Items := List (PyKey × PyVal)

/-- `_j` -/
def toText (v : PyVal) : Str := render plainStyle (toJson KeySort.insertion false v)

/-- `_un(text, {})` -/
def fromText (text : Str) : PyVal :=
  match loads text with
  | .ok v => v
  | .error _ => .dict []

/-- `d[k] = v` -/
def setItem (k : PyKey) (v : PyVal) : Items → Items
  | [] => [(k, v)]
  | (k', v') :: items => if k' = k then (k', v) :: items else (k', v') :: setItem k v items

/-- `d.update(e)` -/
def updateItems (d e : Items) : Items := e.foldl (fun d p => setItem p.1 p.2 d) d

/-- The body that a row holds. Anything but a dict has no `update`. -/
def bodyOf (text : Str) : Except PyError Items :=
  match fromText text with
  | .dict items => .ok items
  | _ => .error .attributeError

/-! ## Calls -/

/-- The task object: its identity, and the sections in the order of `as_dict`. -/
structure UnifiedTask where
  taskId : Str
  kind : Str
  tenant : Str
  session : Str
  source : Str
  schemaVersion : Int
  sections : Items

def UnifiedTask.asDict (task : UnifiedTask) (createdAt updatedAt : Str) (state : TaskState) :
    Items :=
  [(.str (lit "task_id"), .str task.taskId), (.str (lit "kind"), .str task.kind),
    (.str (lit "tenant"), .str task.tenant), (.str (lit "session"), .str task.session),
    (.str (lit "source"), .str task.source), (.str (lit "created_at"), .str createdAt),
    (.str (lit "updated_at"), .str updatedAt), (.str (lit "state"), .str state.text),
    (.str (lit "schema_version"), .int task.schemaVersion)] ++ task.sections

/-- The clock at the start of a call and at its event, and what the mirror to the chain returns
(`none` where it fails: that is logged and no more). -/
structure CallTimes where
  now : Str
  eventAt : Str
  auditSeq : Option Int

/-- `create` -/
def TaskStore.create (task : UnifiedTask) (times : CallTimes) : TaskStore where
  row := ⟨task.taskId, .created, times.now, times.now,
    toText (.dict (task.asDict times.now times.now .created))⟩
  events := [⟨lit "TASK_CREATED", toText (.dict [(.str (lit "kind"), .str task.kind),
    (.str (lit "tenant"), .str task.tenant), (.str (lit "session"), .str task.session),
    (.str (lit "source"), .str task.source)]), .created, times.auditSeq, times.eventAt⟩]

inductive TaskCall where
  | emit (eventType : Str) (payload : Option Items) (state : Option Str) (update : Option Items)
      (times : CallTimes)
  | transition (toState reason : Str) (payload : Option Items) (times : CallTimes)
  | update (sections : Items) (now : Str)

/-- What a call reads of the row. -/
structure TaskView where
  state : TaskState
  body : Str
  deriving DecidableEq

/-- What a call writes in its transaction. -/
inductive TaskWrite where
  | event (eventType payload : Str) (state : TaskState) (body : Str) (times : CallTimes)
  | body (body now : Str)

/-- The state after an event: `state` moves the state machine. -/
def stateAfter (fromState : TaskState) (state : Option Str) : Except PyError TaskState :=
  match state with
  | some toState => validateTransition fromState toState
  | none => .ok fromState

/-- `emit`, from the row that it has read. -/
def emit (row : TaskView) (eventType : Str) (payload : Option Items) (state : Option Str)
    (update : Option Items) (times : CallTimes) : Except PyError TaskWrite := do
  raiseIf (!taskEvents.contains eventType)
    (lifecycleError (lit "unknown task event: " ++ eventType))
  let currentState ← stateAfter row.state state
  let body ← bodyOf row.body
  let merged := updateItems body (update.getD [])
  let stated := setItem (.str (lit "state")) (.str currentState.text) merged
  let dated := setItem (.str (lit "updated_at")) (.str times.now) stated
  .ok (.event eventType (toText (.dict (payload.getD []))) currentState
    (toText (.dict dated)) times)

/-- `transition` -/
def transition (row : TaskView) (toState reason : Str) (payload : Option Items)
    (times : CallTimes) : Except PyError TaskWrite := do
  let event ← eventForState toState
  let items := if reason = [] then payload.getD []
    else setItem (.str (lit "reason")) (.str reason) (payload.getD [])
  emit row event (some items) (some toState) none times

/-- `update` -/
def update (row : TaskView) (sections : Items) (now : Str) : Except PyError TaskWrite := do
  let body ← bodyOf row.body
  let merged := updateItems body sections
  .ok (.body (toText (.dict (setItem (.str (lit "updated_at")) (.str now) merged))) now)

/-- What a call decides from the row that it has read; `none` where it raises. -/
def taskPlan (call : TaskCall) (row : TaskView) : Option TaskWrite :=
  match call with
  | .emit eventType payload state update times =>
    (emit row eventType payload state update times).toOption
  | .transition toState reason payload times =>
    (transition row toState reason payload times).toOption
  | .update sections now => (update row sections now).toOption

/-- The transaction: the event is inserted, and the row is rewritten. -/
def taskWrite (write : TaskWrite) (s : TaskStore) : TaskStore :=
  match write with
  | .event eventType payload state body times =>
    { row := { s.row with state := state, updatedAt := times.now, body := body }
      events := s.events ++ [⟨eventType, payload, state, times.auditSeq, times.eventAt⟩] }
  | .body body now => { s with row := { s.row with updatedAt := now, body := body } }

/-- The calls on a task, each a read and a later write. -/
def lifecycle : ReadWrite TaskStore TaskView TaskCall TaskWrite where
  view s := ⟨s.row.state, s.row.body⟩
  plan := taskPlan
  exec := taskWrite

/-! ## The life cycle -/

/-- The states that the events record. -/
def TaskStore.states (s : TaskStore) : List TaskState := s.events.map EventRow.state

/-- The events walk the graph of the allowed transitions from `CREATED` to the state of the row, and
no event leaves a terminal state. -/
structure Lifecycle (s : TaskStore) : Prop where
  start : s.states.head? = some .created
  path : s.states.IsChain fun a b => b = a ∨ b ∈ allowedTransitions a
  terminal : ∀ pre e post, s.events = pre ++ e :: post → e.state.terminal →
    ∀ f ∈ post, f.state = e.state
  current : s.states.getLast? = some s.row.state

theorem validateTransition_eq_ok {a b : TaskState} {text : Str}
    (h : validateTransition a text = .ok b) : b ∈ allowedTransitions a := by
  unfold validateTransition at h
  split at h
  · cases h
  · obtain ⟨_, hmem, h⟩ := bind_eq_ok.mp h
    obtain rfl := Except.ok.inj h
    exact not_not.mp (raiseIf_eq_ok.mp hmem)

theorem emit_eq_ok {row : TaskView} {eventType : Str} {payload : Option Items} {state : Option Str}
    {changes : Option Items} {times : CallTimes} {w : TaskWrite}
    (h : emit row eventType payload state changes times = .ok w) :
    ∃ text b body, w = .event eventType text b body times ∧
      (b = row.state ∨ b ∈ allowedTransitions row.state) := by
  obtain ⟨_, -, h⟩ := bind_eq_ok.mp h
  obtain ⟨b, hb, h⟩ := bind_eq_ok.mp h
  obtain ⟨body, -, h⟩ := bind_eq_ok.mp h
  refine ⟨_, b, _, (Except.ok.inj h).symm, ?_⟩
  cases state with
  | none => exact Or.inl (Except.ok.inj hb).symm
  | some toState => exact Or.inr (validateTransition_eq_ok hb)

/-- A call stays in the state that it has read, or it moves along an allowed transition from it. -/
theorem taskPlan_cases {call : TaskCall} {row : TaskView} {w : TaskWrite}
    (h : taskPlan call row = some w) :
    (∃ eventType text b body times, w = .event eventType text b body times ∧
      (b = row.state ∨ b ∈ allowedTransitions row.state)) ∨ ∃ body now, w = .body body now := by
  cases call with
  | emit eventType payload state changes times =>
    obtain ⟨text, b, body, hw, hb⟩ := emit_eq_ok (toOption_eq_some.mp h)
    exact Or.inl ⟨_, text, b, body, times, hw, hb⟩
  | transition toState reason payload times =>
    obtain ⟨event, -, h⟩ := bind_eq_ok.mp (toOption_eq_some.mp h)
    obtain ⟨text, b, body, hw, hb⟩ := emit_eq_ok h
    exact Or.inl ⟨event, text, b, body, times, hw, hb⟩
  | update sections now =>
    obtain ⟨body, -, h⟩ := bind_eq_ok.mp (toOption_eq_some.mp h)
    exact Or.inr ⟨_, now, (Except.ok.inj h).symm⟩

/-- Along a path, nothing but the terminal state itself follows it. -/
theorem eq_of_terminal : ∀ {l : List TaskState} {a : TaskState},
    (a :: l).IsChain (fun a b => b = a ∨ b ∈ allowedTransitions a) → a.terminal → ∀ b ∈ l, b = a
  | [], _, _, _ => fun _ hb => absurd hb List.not_mem_nil
  | c :: l, a, hpath, hterm => by
    obtain ⟨hac, hrest⟩ := List.isChain_cons_cons.mp hpath
    rcases hac with rfl | hmem
    · intro b hb
      rcases List.mem_cons.mp hb with rfl | hb
      · rfl
      · exact eq_of_terminal hrest hterm b hb
    · rw [hterm] at hmem
      exact absurd hmem List.not_mem_nil

/-- The part of the life cycle that the rest follows from. -/
structure Walk (s : TaskStore) : Prop where
  start : s.states.head? = some .created
  path : s.states.IsChain fun a b => b = a ∨ b ∈ allowedTransitions a
  current : s.states.getLast? = some s.row.state

theorem Walk.lifecycle {s : TaskStore} (h : Walk s) : Lifecycle s where
  start := h.start
  path := h.path
  current := h.current
  terminal pre e post hsplit hterm f hf := by
    have hpath := h.path
    rw [TaskStore.states, hsplit, List.map_append, List.map_cons, List.isChain_append] at hpath
    exact eq_of_terminal hpath.2.1 hterm f.state (List.mem_map_of_mem hf)

theorem walk_create (task : UnifiedTask) (times : CallTimes) :
    Walk (TaskStore.create task times) where
  start := rfl
  path := List.isChain_singleton _
  current := rfl

/-- One call that reads and writes at once goes on with the walk. -/
theorem serial_walk {s t : TaskStore} {call : TaskCall} (hs : Walk s)
    (h : lifecycle.serial s call = some t) : Walk t := by
  obtain ⟨w, hplan, rfl⟩ := Option.map_eq_some_iff.mp h
  rcases taskPlan_cases hplan with ⟨eventType, text, b, body, times, rfl, hb⟩ | ⟨body, now, rfl⟩
  · have hstates : (taskWrite (.event eventType text b body times) s).states = s.states ++ [b] := by
      simp [TaskStore.states, taskWrite]
    refine ⟨?_, ?_, ?_⟩
    · rw [show lifecycle.exec = taskWrite from rfl, hstates, List.head?_append, hs.start]
      rfl
    · rw [show lifecycle.exec = taskWrite from rfl, hstates, List.isChain_append]
      refine ⟨hs.path, List.isChain_singleton _, ?_⟩
      intro x hx y hy
      rw [hs.current] at hx
      obtain rfl := Option.some.inj hx
      obtain rfl := Option.some.inj hy
      exact hb
    · rw [show lifecycle.exec = taskWrite from rfl, hstates, List.getLast?_concat]
      rfl
  · exact ⟨hs.start, hs.path, hs.current⟩

/-- The calls one after the other keep the life cycle. -/
theorem serial_lifecycle {s t : TaskStore} {calls : List TaskCall} (hs : Walk s)
    (h : run lifecycle.serial s calls = some t) : Lifecycle t :=
  (run_invariant (I := Walk) (fun _ _ _ hu hv => serial_walk hu hv) hs h).lifecycle

/-! ## Concurrent calls -/

/-- Concurrent calls on one task: the events keep the life cycle, and the row is what the written
calls leave when they run one after the other. So no update of the body is lost. -/
def TaskSerializable (task : UnifiedTask) (times : CallTimes) : Prop :=
  ∀ es s, run lifecycle.step (ReadWrite.init (TaskStore.create task times)) es = some s →
    Lifecycle s.data ∧
      run lifecycle.serial (TaskStore.create task times) s.written = some s.data

/-- **Serializability of the life cycle.** It holds of a run where every call that writes still
finds the state and the body that it has read. -/
theorem run_serializable (task : UnifiedTask) (times : CallTimes)
    (es : List (ReadWrite.Event TaskCall))
    (s : ReadWrite.State TaskStore TaskView TaskCall TaskWrite)
    (hfresh : Along lifecycle.step lifecycle.Unchanged
      (ReadWrite.init (TaskStore.create task times)) es)
    (hrun : run lifecycle.step (ReadWrite.init (TaskStore.create task times)) es = some s) :
    Lifecycle s.data ∧
      run lifecycle.serial (TaskStore.create task times) s.written = some s.data := by
  have hserial := ReadWrite.serial_of_unchanged hfresh hrun
  exact ⟨serial_lifecycle (walk_create task times) hserial, hserial⟩

/-! ## Two verdicts on one task -/

/-- A task without sections. -/
def bareTask : UnifiedTask :=
  ⟨lit "t1", lit "agent.run", lit "default", lit "default", lit "api", 1, []⟩

def someTimes : CallTimes :=
  ⟨lit "2026-01-01T00:00:00+00:00", lit "2026-01-01T00:00:00+00:00", none⟩

def moveTo (state : String) : TaskCall := .transition (lit state) [] none someTimes

/-- The calls that bring a task to `VERIFYING`. -/
def toVerifying : List (ReadWrite.Event TaskCall) :=
  ReadWrite.oneByOne [moveTo "PLANNED", moveTo "EXECUTING", moveTo "VERIFYING"]

theorem run_serializable_verifying : ∃ s,
    run lifecycle.step (ReadWrite.init (TaskStore.create bareTask someTimes)) toVerifying = some s ∧
    s.data.row.state = .verifying ∧ Lifecycle s.data ∧
      run lifecycle.serial (TaskStore.create bareTask someTimes) s.written = some s.data := by
  have hrun : ((run lifecycle.step (ReadWrite.init (TaskStore.create bareTask someTimes))
      toVerifying).map fun s => s.data.row.state) = some .verifying := by
    decide +kernel
  obtain ⟨s, hs, hstate⟩ := Option.map_eq_some_iff.mp hrun
  exact ⟨s, hs, hstate, run_serializable bareTask someTimes toVerifying s
    (ReadWrite.unchanged_oneByOne _ _ rfl) hs⟩

/-- Two workers read a task that is being verified, and each of them issues its verdict. -/
def twoVerdicts : List (ReadWrite.Event TaskCall) :=
  toVerifying ++ [.read (moveTo "COMPLETED"), .read (moveTo "FAILED"), .write 0 true, .write 0 true]

/-- The events record `FAILED` after `COMPLETED`. -/
theorem not_taskSerializable : ¬ TaskSerializable bareTask someTimes := by
  intro h
  have hrun : ((run lifecycle.step (ReadWrite.init (TaskStore.create bareTask someTimes))
      twoVerdicts).map fun s => s.data.states) =
        some [.created, .planned, .executing, .verifying, .completed, .failed] := by
    decide +kernel
  obtain ⟨s, hs, hstates⟩ := Option.map_eq_some_iff.mp hrun
  have hpath := (h twoVerdicts s hs).1.path
  rw [hstates] at hpath
  simp [allowedTransitions] at hpath

end Tasks
