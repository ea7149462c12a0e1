import Msb.Infra.Keyed
import Msb.Infra.Ranking
import Msb.Tasks.Lifecycle

/-!
# Replay and reconciliation

`replay/engine.py`: the state of a task is derived from its events, and every step of the derivation
is looked up in the table of the transitions. The tables may hold anything: a state here is the text
that the column has.

An event without a state is passed over, and so is one with the state that the task is in: an
informational event records the current state.

* `replayEvents_spec` — what the loop over the events comes to
* `reconcile_exact` — the tasks that `reconcile` reports
* `not_reported_of_calls` — it reports no task that only the calls have written
-/

namespace Tasks

open Py Ledger Ranking

/-! ## The tables -/

/-- A row of `task_events`, as far as the replay reads it. -/
structure EventEntry where
  taskId : Str
  eventType : Str
  state : Option Str
  deriving DecidableEq

/-- A row of `unified_tasks`. -/
structure TaskEntry where
  taskId : Str
  state : Str
  createdAt : Str
  deriving DecidableEq

/-- The two tables. The rows of `task_events` are in the order of their ids. -/
structure TaskTables where
  tasks : List TaskEntry
  events : List EventEntry
  primaryKey : Keyed.Unique TaskEntry.taskId tasks

/-- `TaskLifecycle.get` -/
def TaskTables.get (db : TaskTables) (taskId : Str) :
    Except PyError (TaskEntry × List EventEntry) :=
  match Keyed.find TaskEntry.taskId taskId db.tasks with
  | none => .error (lifecycleError (lit "unknown task: " ++ taskId))
  | some row => .ok (row, db.events.filter fun e => e.taskId = taskId)

/-- `TaskLifecycle.list`: `ORDER BY created_at DESC LIMIT ?` -/
def TaskTables.list (db : TaskTables) (limit : ℕ) : List TaskEntry :=
  (ranked TaskEntry.createdAt db.tasks).take limit

/-! ## The replay of one task -/

/-- `_ALLOWED_TRANSITIONS.get(from_state, set())` -/
def allowedFrom (fromState : Str) : List TaskState :=
  ((TaskState.ofText fromState).map allowedTransitions).getD []

/-- `validate_transition`, from a state that may be none of the table. -/
def validateTextTransition (fromState toState : Str) : Except PyError Unit :=
  match TaskState.ofText toState with
  | none => .error (lifecycleError (lit "unknown task state: " ++ toState))
  | some target => raiseIf (target ∉ allowedFrom fromState)
      (lifecycleError (lit "invalid transition " ++ fromState ++ lit " -> " ++ toState))

/-- `str(exc)` of a `TaskLifecycleError` -/
def lifecycleText : PyError → Str
  | .raised _ message => message
  | _ => []

structure Transition where
  fromState : Option Str
  toState : Str
  eventType : Str

/-- The variables of the loop in `replay_state`. -/
structure Replayed where
  derived : Option Str
  transitions : List Transition
  issues : List Str
  legal : Bool

section

variable (repr : Str → Str)

/-- An event whose state is not the one that the task is in. -/
def Replayed.move (r : Replayed) (state eventType : Str) : Replayed :=
  let moved : Replayed := { r with
    derived := some state
    transitions := r.transitions ++ [⟨r.derived, state, eventType⟩] }
  match r.derived with
  | none =>
    if state = lit "CREATED" then moved
    else { moved with
      legal := false
      issues := r.issues ++ [lit "first event state " ++ repr state ++ lit " is not CREATED"] }
  | some derived =>
    match validateTextTransition derived state with
    | .ok () => moved
    | .error e => { moved with
        legal := false
        issues := r.issues ++ [lit "illegal transition " ++ derived ++ lit " -> " ++ state ++
          lit ": " ++ lifecycleText e] }

/-- The state of an event, where it has one: `""` is none. -/
def EventEntry.stated (e : EventEntry) : Option Str := e.state.filter fun state => state ≠ []

/-- The body of the loop. -/
def Replayed.event (r : Replayed) (e : EventEntry) : Replayed :=
  match e.stated with
  | none => r
  | some state => if r.derived = some state then r else r.move repr state e.eventType

def replayEvents (events : List EventEntry) : Replayed :=
  events.foldl (Replayed.event repr) ⟨none, [], [], true⟩

/-- What `replay_state` returns. -/
structure TaskReplay where
  taskId : Str
  storedState : Str
  derivedState : Option Str
  consistent : Bool
  legal : Bool
  transitions : List Transition
  eventCount : ℕ
  issues : Option (List Str)
  divergence : Option Str

/-- `ReplayEngine.replay_state` -/
def replayState (db : TaskTables) (taskId : Str) : Except PyError TaskReplay := do
  let (row, events) ← db.get taskId
  let r := replayEvents repr events
  let consistent := r.derived = some row.state
  .ok {
    taskId := taskId
    storedState := row.state
    derivedState := r.derived
    consistent := consistent
    legal := r.legal
    transitions := r.transitions
    eventCount := events.length
    issues := if r.issues = [] then none else some r.issues
    divergence := if consistent then none
      else some (lit "stored " ++ repr row.state ++ lit " != event-derived " ++
        (r.derived.map repr).getD (lit "None")) }

/-- `RECOVERABLE_STATES` -/
def recoverableStates : List Str := [lit "EXECUTING", lit "VERIFYING"]

structure Reconciliation where
  taskCount : ℕ
  divergences : List TaskReplay
  inFlight : List Str

/-- `ReplayEngine.reconcile`. A task that is gone between the list and its read is left out. -/
def reconcile (db : TaskTables) : Reconciliation :=
  let tasks := db.list 10000
  let replays := tasks.filterMap fun row => (replayState repr db row.taskId).toOption
  { taskCount := tasks.length
    divergences := replays.filter fun r => !r.consistent || !r.legal
    inFlight :=
      (replays.filter fun r => r.derivedState.any fun s => s ∈ recoverableStates).map
      TaskReplay.taskId }

end

/-! ## The state and the path of the events -/

/-- The states that events record, in order. -/
def statesOf (events : List EventEntry) : List Str := events.filterMap EventEntry.stated

/-- A step along the table of the transitions. -/
def Allowed (a b : Str) : Prop := ∃ target, TaskState.ofText b = some target ∧
    target ∈ allowedFrom a

/-- The states are a path of the table from `CREATED`, a state that is recorded again right after
itself counted once. -/
structure TransitionPath (states : List Str) : Prop where
  start : ∀ s ∈ states.head?, s = lit "CREATED"
  steps : (states.destutter (· ≠ ·)).IsChain Allowed

theorem validateTextTransition_eq_ok {a b : Str} :
    validateTextTransition a b = .ok () ↔ Allowed a b := by
  unfold validateTextTransition Allowed
  cases TaskState.ofText b with
  | none => simp
  | some target => simp [raiseIf_eq_ok]

theorem isChain_cons_destutter' {α : Type*} [DecidableEq α] {R : α → α → Prop} (a b : α)
    (l : List α) :
    (a :: l.destutter' (· ≠ ·) b).IsChain R ↔ R a b ∧ (l.destutter' (· ≠ ·) b).IsChain R := by
  have hhead : ∃ t, l.destutter' (· ≠ ·) b = b :: t := by
    induction l with
    | nil => exact ⟨[], rfl⟩
    | cons c l ih =>
      by_cases hc : b ≠ c
      · exact ⟨_, List.destutter'_cons_pos _ hc⟩
      · rw [List.destutter'_cons_neg _ hc]
        exact ih
  obtain ⟨t, ht⟩ := hhead
  rw [ht, List.isChain_cons_cons]

section

variable {repr : Str → Str}

theorem move_derived (r : Replayed) (state eventType : Str) :
    (r.move repr state eventType).derived = some state := by
  unfold Replayed.move
  cases hderived : r.derived with
  | none => by_cases h : state = lit "CREATED" <;> simp [h]
  | some a => cases h : validateTextTransition a state <;> simp [h]

theorem move_legal_start {r : Replayed} (h : r.derived = none) (state eventType : Str) :
    (r.move repr state eventType).legal = true ↔ r.legal = true ∧ state = lit "CREATED" := by
  unfold Replayed.move
  rw [h]
  by_cases hstate : state = lit "CREATED" <;> simp [hstate]

theorem move_legal_step {r : Replayed} {a : Str} (h : r.derived = some a) (state eventType : Str) :
    (r.move repr state eventType).legal = true ↔ r.legal = true ∧ Allowed a state := by
  unfold Replayed.move
  rw [h, ← validateTextTransition_eq_ok]
  cases hvalid : validateTextTransition a state <;> simp [hvalid]

/-- The loop from an event on that has left the task in the state `a`. -/
theorem foldl_event {a : Str} : ∀ (events : List EventEntry) {r : Replayed}, r.derived = some a →
    (events.foldl (Replayed.event repr) r).derived = (a :: statesOf events).getLast? ∧
      ((events.foldl (Replayed.event repr) r).legal = true ↔
        r.legal = true ∧ ((statesOf events).destutter' (· ≠ ·) a).IsChain Allowed)
  | [], r, h => by simp [statesOf, h]
  | e :: events, r, h => by
    rw [List.foldl_cons]
    cases he : e.stated with
    | none =>
      have hevent : r.event repr e = r := by simp [Replayed.event, he]
      have hstates : statesOf (e :: events) = statesOf events := List.filterMap_cons_none he
      rw [hevent, hstates]
      exact foldl_event events h
    | some state =>
      have hstates : statesOf (e :: events) = state :: statesOf events :=
        List.filterMap_cons_some he
      rw [hstates]
      by_cases hsame : a = state
      · subst hsame
        have hevent : r.event repr e = r := by simp [Replayed.event, he, h]
        rw [hevent, List.destutter'_cons_neg _ (not_not.mpr rfl)]
        simpa using foldl_event events h
      · have hevent : r.event repr e = r.move repr state e.eventType := by
          simp [Replayed.event, he, h, hsame]
        obtain ⟨hderived, hlegal⟩ := foldl_event events (move_derived r state e.eventType)
        rw [hevent, hlegal, move_legal_step h, List.destutter'_cons_pos _ hsame,
          isChain_cons_destutter', and_assoc]
        exact ⟨by simpa using hderived, Iff.rfl⟩

theorem replayEvents_skip {e : EventEntry} (he : e.stated = none) (events : List EventEntry) :
    replayEvents repr (e :: events) = replayEvents repr events := by
  unfold replayEvents
  rw [List.foldl_cons]
  simp [Replayed.event, he]

/-- **What the loop derives**: the state of the last event that has one, and whether the states are
a path. -/
theorem replayEvents_spec (repr : Str → Str) : ∀ events : List EventEntry,
    (replayEvents repr events).derived = (statesOf events).getLast? ∧
      ((replayEvents repr events).legal = true ↔ TransitionPath (statesOf events))
  | [] => ⟨rfl, fun _ => ⟨by simp [statesOf], List.IsChain.nil⟩, fun _ => rfl⟩
  | e :: events => by
    cases he : e.stated with
    | none =>
      have hstates : statesOf (e :: events) = statesOf events := List.filterMap_cons_none he
      rw [replayEvents_skip he, hstates]
      exact replayEvents_spec repr events
    | some state =>
      have hstates : statesOf (e :: events) = state :: statesOf events :=
        List.filterMap_cons_some he
      have hevent : replayEvents repr (e :: events) =
          events.foldl (Replayed.event repr)
          (Replayed.move repr ⟨none, [], [], true⟩ state e.eventType) := by
        simp [replayEvents, Replayed.event, he]
      have hmoved : (Replayed.move repr ⟨none, [], [], true⟩ state e.eventType).derived =
        some state := move_derived _ _ _
      obtain ⟨hderived, hlegal⟩ := foldl_event events hmoved
      rw [hevent, hstates, hlegal, move_legal_start rfl]
      refine ⟨hderived, ?_, fun h => ⟨⟨rfl, h.start state rfl⟩, h.steps⟩⟩
      rintro ⟨⟨-, hstart⟩, hsteps⟩
      refine ⟨fun s hs => ?_, hsteps⟩
      rw [← hstart]
      exact (Option.some.inj hs).symm

end

/-! ## The report -/

/-- The events of a task. -/
def TaskTables.eventsOf (db : TaskTables) (taskId : Str) : List EventEntry :=
  db.events.filter fun e => e.taskId = taskId

/-- The state derived from the events of a task. -/
def TaskTables.derivedState (db : TaskTables) (taskId : Str) : Option Str :=
  (statesOf (db.eventsOf taskId)).getLast?

/-- A row whose state is not the derived one, or whose events are not a path. -/
def TaskTables.Divergent (db : TaskTables) (row : TaskEntry) : Prop :=
  db.derivedState row.taskId ≠ some row.state ∨ ¬TransitionPath (statesOf (db.eventsOf row.taskId))

/-- A row whose derived state is recoverable. -/
def TaskTables.InFlight (db : TaskTables) (row : TaskEntry) : Prop :=
  ∃ s ∈ recoverableStates, db.derivedState row.taskId = some s

section

variable {repr : Str → Str} {db : TaskTables}

theorem get_eq_ok {row : TaskEntry} (h : row ∈ db.tasks) :
    db.get row.taskId = .ok (row, db.eventsOf row.taskId) := by
  unfold TaskTables.get
  rw [(Keyed.find_eq_some db.primaryKey).mpr ⟨h, rfl⟩]
  rfl

/-- The replay of a row of the table. -/
theorem replayState_row (repr : Str → Str) {row : TaskEntry} (h : row ∈ db.tasks) : ∃ replay,
    replayState repr db row.taskId = .ok replay ∧
    replay.taskId = row.taskId ∧ replay.derivedState = db.derivedState row.taskId ∧
      ((!replay.consistent || !replay.legal) = true ↔ db.Divergent row) := by
  obtain ⟨hderived, hlegal⟩ := replayEvents_spec repr (db.eventsOf row.taskId)
  unfold replayState
  rw [get_eq_ok h]
  refine ⟨_, rfl, rfl, hderived, ?_⟩
  rw [TaskTables.Divergent, ← hlegal, TaskTables.derivedState, ← hderived]
  simp

theorem list_eq_ranked (h : db.tasks.length ≤ 10000) :
    db.list 10000 = ranked TaskEntry.createdAt db.tasks := by
  unfold TaskTables.list
  refine List.take_of_length_le ?_
  rw [(ranked_perm _ _).length_eq]
  exact h

theorem ids_replays (repr : Str → Str) (db : TaskTables) :
    ((db.list 10000).filterMap fun row => (replayState repr db row.taskId).toOption).map
    TaskReplay.taskId = (db.list 10000).map TaskEntry.taskId := by
  rw [List.map_filterMap, ← List.filterMap_eq_map]
  refine List.filterMap_congr fun row hrow => ?_
  obtain ⟨replay, hreplay, hid, -⟩ :=
    replayState_row repr (mem_ranked.mp (List.mem_of_mem_take hrow))
  rw [hreplay]
  exact congrArg some hid

theorem nodup_replays (repr : Str → Str) (db : TaskTables) (p : TaskReplay → Bool) :
    ((((db.list 10000).filterMap fun row => (replayState repr db row.taskId).toOption).filter p).map
      TaskReplay.taskId).Nodup := by
  have hlist : ((db.list 10000).map TaskEntry.taskId).Nodup :=
    ((((ranked_perm _ _).map _).nodup_iff.mpr db.primaryKey).sublist
      ((List.take_sublist _ _).map _))
  rw [← ids_replays repr] at hlist
  exact hlist.sublist (List.filter_sublist.map _)

/-- The replays that a test keeps, for tables that the list has all of. -/
theorem mem_ids_replays (h : db.tasks.length ≤ 10000) {p : TaskReplay → Bool} {P : TaskEntry → Prop}
    (hp : ∀ row ∈ db.tasks, ∀ replay, replayState repr db row.taskId = .ok replay →
      (p replay = true ↔ P row)) (taskId : Str) :
    taskId ∈ (((db.list 10000).filterMap fun row =>
      (replayState repr db row.taskId).toOption).filter p).map TaskReplay.taskId ↔
      ∃ row ∈ db.tasks, row.taskId = taskId ∧ P row := by
  rw [list_eq_ranked h]
  simp only [List.mem_map, List.mem_filter, List.mem_filterMap, mem_ranked, toOption_eq_some]
  constructor
  · rintro ⟨replay, ⟨⟨row, hrow, hreplay⟩, hkept⟩, rfl⟩
    obtain ⟨replay', hreplay', hid, -⟩ := replayState_row repr hrow
    obtain rfl := Except.ok.inj (hreplay.symm.trans hreplay')
    exact ⟨row, hrow, hid.symm, (hp row hrow replay hreplay).mp hkept⟩
  · rintro ⟨row, hrow, rfl, hP⟩
    obtain ⟨replay, hreplay, hid, -⟩ := replayState_row repr hrow
    exact ⟨replay, ⟨⟨row, hrow, hreplay⟩, (hp row hrow replay hreplay).mpr hP⟩, hid⟩

/-- **What `reconcile` reports**, for tables of up to 10000 tasks: as divergent the tasks whose
stored state is not the one of their last event or whose events are no path from `CREATED`, as in
flight those whose derived state is recoverable, and each of them once. -/
theorem reconcile_exact (repr : Str → Str) {db : TaskTables} (h : db.tasks.length ≤ 10000) :
    ((∀ taskId, taskId ∈ (reconcile repr db).divergences.map TaskReplay.taskId ↔
        ∃ row ∈ db.tasks, row.taskId = taskId ∧ db.Divergent row) ∧
      ((reconcile repr db).divergences.map TaskReplay.taskId).Nodup) ∧
    (∀ taskId, taskId ∈ (reconcile repr db).inFlight ↔ ∃ row ∈ db.tasks, row.taskId = taskId ∧
      db.InFlight row) ∧ (reconcile repr db).inFlight.Nodup := by
  refine ⟨⟨mem_ids_replays h fun row hrow replay hreplay => ?_, nodup_replays _ _ _⟩,
    mem_ids_replays h fun row hrow replay hreplay => ?_, nodup_replays _ _ _⟩
  · obtain ⟨replay', hreplay', -, -, hdivergent⟩ := replayState_row repr hrow
    obtain rfl := Except.ok.inj (hreplay.symm.trans hreplay')
    exact hdivergent
  · obtain ⟨replay', hreplay', -, hderived, -⟩ := replayState_row repr hrow
    obtain rfl := Except.ok.inj (hreplay.symm.trans hreplay')
    rw [hderived, TaskTables.InFlight]
    cases db.derivedState row.taskId <;> simp [eq_comm]

end

/-! ## The calls of `TaskLifecycle` -/

theorem ofText_text (s : TaskState) : TaskState.ofText s.text = some s := by cases s <;> decide

theorem text_injective : Function.Injective TaskState.text := fun a b h =>
  Option.some.inj ((ofText_text a).symm.trans ((congrArg TaskState.ofText h).trans (ofText_text b)))

theorem allowed_text {a b : TaskState} : Allowed a.text b.text ↔ b ∈ allowedTransitions a := by
  simp [Allowed, allowedFrom, ofText_text]

theorem destutter_allowed : ∀ {a : TaskState} {l : List TaskState},
    (a :: l).IsChain (fun a b => b = a ∨ b ∈ allowedTransitions a) →
      (l.destutter' (· ≠ ·) a).IsChain fun a b => b ∈ allowedTransitions a
  | a, [], _ => List.isChain_singleton a
  | a, b :: l, h => by
    obtain ⟨hstep, hrest⟩ := List.isChain_cons_cons.mp h
    by_cases hsame : a = b
    · subst hsame
      rw [List.destutter'_cons_neg _ (not_not.mpr rfl)]
      exact destutter_allowed hrest
    · rw [List.destutter'_cons_pos _ hsame, isChain_cons_destutter']
      exact ⟨hstep.resolve_left (Ne.symm hsame), destutter_allowed hrest⟩

/-- **A task that only the calls have written is not divergent.** -/
theorem Lifecycle.transitionPath {s : TaskStore} (h : Lifecycle s) :
    TransitionPath (s.states.map TaskState.text) ∧
    (s.states.map TaskState.text).getLast? = some s.row.state.text := by
  refine ⟨⟨fun text htext => ?_, ?_⟩, by rw [List.getLast?_map, h.current, Option.map_some]⟩
  · rw [List.head?_map, h.start] at htext
    exact (Option.some.inj htext).symm
  · rw [← List.map_destutter_ne _ text_injective, List.isChain_map]
    simp only [allowed_text]
    cases hstates : s.states with
    | nil => exact List.IsChain.nil
    | cons a l => exact destutter_allowed (hstates ▸ h.path)

/-- **`reconcile` does not report a task that only the calls have written**, whatever else the
tables hold. -/
theorem not_reported_of_calls (repr : Str → Str) {db : TaskTables} {row : TaskEntry}
    {task : UnifiedTask} {times : CallTimes}
    {calls : List TaskCall} {t : TaskStore}
    (h : Machine.run lifecycle.serial (TaskStore.create task times) calls = some t)
    (hrow : row ∈ db.tasks) (hstate : row.state = t.row.state.text)
    (hstates : statesOf (db.eventsOf row.taskId) = t.states.map TaskState.text) :
    row.taskId ∉ (reconcile repr db).divergences.map TaskReplay.taskId := by
  obtain ⟨hpath, hlast⟩ := (serial_lifecycle (walk_create task times) h).transitionPath
  intro hmem
  obtain ⟨replay, hkept, hid⟩ := List.mem_map.mp hmem
  obtain ⟨hread, hreported⟩ := List.mem_filter.mp hkept
  obtain ⟨row', hlisted, hreplay⟩ := List.mem_filterMap.mp hread
  have hrow' : row' ∈ db.tasks := mem_ranked.mp (List.mem_of_mem_take hlisted)
  obtain ⟨replay', hreplay', hid', -, hdivergent⟩ := replayState_row repr hrow'
  obtain rfl := Except.ok.inj ((toOption_eq_some.mp hreplay).symm.trans hreplay')
  obtain rfl : row' = row := List.inj_on_of_nodup_map db.primaryKey hrow' hrow (hid'.symm.trans hid)
  rcases hdivergent.mp hreported with hother | hno
  · rw [TaskTables.derivedState, hstates, hlast, hstate] at hother
    exact hother rfl
  · rw [hstates] at hno
    exact hno hpath

/-! ## A task of two events -/

/-- One task, with these states in its events. -/
def oneTask (stored : Str) (states : List (Option Str)) : TaskTables where
  tasks := [⟨lit "t.1", stored, lit "2026-08-16"⟩]
  events := states.map fun state => ⟨lit "t.1", lit "TASK_RECOVERED", state⟩
  primaryKey := List.nodup_singleton _

theorem not_reported_planned :
    lit "t.1" ∉
    (reconcile id
      (oneTask (lit "PLANNED") [some (lit "CREATED"), some (lit "PLANNED")])).divergences.map
      TaskReplay.taskId := by
  have hrun :
    ((Machine.run lifecycle.serial (TaskStore.create bareTask someTimes) [moveTo "PLANNED"]).map
      fun t =>
      (t.row.state, t.states)) = some (.planned, [.created, .planned]) := by decide +kernel
  obtain ⟨t, ht, heq⟩ := Option.map_eq_some_iff.mp hrun
  obtain ⟨hstate, hstates⟩ := Prod.mk.inj heq
  have hrow : (⟨lit "t.1", lit "PLANNED", lit "2026-08-16"⟩ : TaskEntry) ∈
      (oneTask (lit "PLANNED") [some (lit "CREATED"), some (lit "PLANNED")]).tasks :=
      List.mem_singleton_self _
  refine not_reported_of_calls id ht hrow ?_ ?_
  · rw [hstate]
    decide
  · rw [hstates]
    decide

/-- Two tasks; the second one has a state that its one event does not lead to. -/
def twoTasks : TaskTables where
  tasks := [⟨lit "t.1", lit "PLANNED", lit "2026-08-16"⟩,
    ⟨lit "t.2", lit "PLANNED", lit "2026-08-17"⟩]
  events := [⟨lit "t.1", lit "TASK_RECOVERED", some (lit "CREATED")⟩,
    ⟨lit "t.2", lit "TASK_RECOVERED", some (lit "CREATED")⟩,
    ⟨lit "t.1", lit "TASK_RECOVERED", none⟩,
    ⟨lit "t.1", lit "TASK_RECOVERED", some (lit "PLANNED")⟩]
  primaryKey := show ([lit "t.1", lit "t.2"] : List Str).Nodup from by decide

theorem reconcile_exact_one :
    twoTasks.Divergent ⟨lit "t.2", lit "PLANNED", lit "2026-08-17"⟩ ∧
    ((∀ taskId, taskId ∈ (reconcile id twoTasks).divergences.map TaskReplay.taskId ↔
        ∃ row ∈ twoTasks.tasks, row.taskId = taskId ∧ twoTasks.Divergent row) ∧
      ((reconcile id twoTasks).divergences.map TaskReplay.taskId).Nodup) ∧
    (∀ taskId, taskId ∈ (reconcile id twoTasks).inFlight ↔
        ∃ row ∈ twoTasks.tasks, row.taskId = taskId ∧ twoTasks.InFlight row) ∧
      (reconcile id twoTasks).inFlight.Nodup := by
  refine ⟨.inl fun hstate => ?_, reconcile_exact id (by decide)⟩
  have hderived : twoTasks.derivedState (lit "t.2") = some (lit "CREATED") := by decide
  rw [hderived] at hstate
  exact absurd (Option.some.inj hstate) (by decide)

/-- An event that enters `CREATED` once more is not reported, though the table has no step from
`CREATED` to itself. -/
theorem reentered_not_reported : ¬∀ (repr : Str → Str) (db : TaskTables) (taskId : Str),
    taskId ∈ (reconcile repr db).divergences.map TaskReplay.taskId ↔
      ∃ row ∈ db.tasks, row.taskId = taskId ∧ (db.derivedState row.taskId ≠ some row.state ∨
        ¬((∀ s ∈ (statesOf (db.eventsOf row.taskId)).head?, s = lit "CREATED") ∧
          (statesOf (db.eventsOf row.taskId)).IsChain Allowed)) := by
  intro h
  have hreport :=
    (h id (oneTask (lit "CREATED") [some (lit "CREATED"), some (lit "CREATED")]) (lit "t.1")).mpr
    ⟨_, List.mem_singleton_self _, rfl, .inr fun hpath => ?_⟩
  · have hlist : (oneTask (lit "CREATED") [some (lit "CREATED"), some (lit "CREATED")]).list 10000 =
        [⟨lit "t.1", lit "CREATED", lit "2026-08-16"⟩] := by simp [TaskTables.list, ranked, oneTask]
    unfold reconcile at hreport
    rw [hlist] at hreport
    exact absurd hreport (by decide)
  · have hstates :
      statesOf ((oneTask (lit "CREATED") [some (lit "CREATED"), some (lit "CREATED")]).eventsOf
        (lit "t.1")) = [lit "CREATED", lit "CREATED"] := by decide
    rw [hstates, List.isChain_cons_cons] at hpath
    obtain ⟨target, htarget, hmem⟩ := hpath.2.1
    obtain rfl : TaskState.created = target := Option.some.inj htarget
    exact absurd hmem (by decide)

end Tasks
