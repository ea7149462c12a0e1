import Msb.Ledger.AuditV2
import Msb.Mission.States

/-!
# The mission store

`mission/store.py` and `mission/models.py`: the three tables, and the step that each operation runs
inside one transaction. A step reads the tables as they are and leaves them as they would be
committed, with the event that the audit chain must hold first. A step that raises is rolled back.

* `transition_eq_ok` — what a transition checks and writes
* `addVersion_spec` — what a new version writes, and when none is written
-/

namespace Mission

open Py Ledger

/-! ## The tables -/

inductive VersionKind where
  | blueprint
  | plan
  | taskGraph
  deriving DecidableEq

def VersionKind.text : VersionKind → Str
  | .blueprint => lit "blueprint"
  | .plan => lit "plan"
  | .taskGraph => lit "task_graph"

/-- `PARENT_KIND` -/
def parentKind : VersionKind → Option VersionKind
  | .blueprint => none
  | .plan => some .blueprint
  | .taskGraph => some .plan

structure MissionRow where
  missionId : Str
  objective : Str
  createdBy : Str
  createdAt : Str
  updatedAt : Str
  state : MissionState
  resumeState : Option MissionState
  constraints : Str
  deriving DecidableEq

structure TransitionRow where
  seq : Nat
  missionId : Str
  fromState : MissionState
  toState : MissionState
  actor : Str
  approvedBy : Option Str
  reason : Str
  time : Str
  deriving DecidableEq

structure VersionRow where
  missionId : Str
  kind : VersionKind
  version : Nat
  sha256 : Str
  parentSha256 : Option Str
  createdBy : Str
  createdAt : Str
  body : Str
  deriving DecidableEq

/-- The tables. The triggers refuse to change or delete a transition or a version. -/
structure MissionDb where
  missions : List MissionRow
  transitions : List TransitionRow
  versions : List VersionRow
  deriving DecidableEq

def MissionDb.init : MissionDb := ⟨[], [], []⟩

/-- A store: the operators, and the built-in `repr` on strings for the texts of its errors. -/
structure MissionStore where
  operators : List Str
  repr : Str → Str

/-- `GATE_ACTOR` -/
def gateActor : Str := lit "msb-gate"

/-- `CHAIN_COMPONENT` -/
def chainComponent : Str := lit "missions"

def missionError (message : Str) : PyError := .raised (lit "MissionError") message

/-- A text is bound as a parameter: SQLite takes UTF-8. -/
def sqlTexts : List Str → Except PyError Unit
  | [] => .ok ()
  | s :: rest => do
    let _ ← encodeE s
    sqlTexts rest

/-! ## The events -/

/-- `None` or the text. -/
def optText : Option Str → PyVal
  | some s => .str s
  | none => .none

/-- The event of a new mission. -/
def MissionRow.call (m : MissionRow) : AppendCall where
  component := chainComponent
  eventType := lit "mission.created"
  payload := .dict [(.str (lit "mission_id"), .str m.missionId),
    (.str (lit "objective"), .str m.objective), (.str (lit "created_by"), .str m.createdBy),
    (.str (lit "constraints"), ((loads m.constraints).toOption.getD .none))]

def VersionRow.call (v : VersionRow) : AppendCall where
  component := chainComponent
  eventType := lit "mission.version"
  payload := .dict [(.str (lit "mission_id"), .str v.missionId),
    (.str (lit "kind"), .str v.kind.text), (.str (lit "version"), .int v.version),
    (.str (lit "sha256"), .str v.sha256), (.str (lit "parent_sha256"), optText v.parentSha256),
    (.str (lit "created_by"), .str v.createdBy)]

def TransitionRow.call (t : TransitionRow) : AppendCall where
  component := chainComponent
  eventType := lit "mission.transition"
  payload := .dict [(.str (lit "mission_id"), .str t.missionId),
    (.str (lit "from_state"), .str t.fromState.text), (.str (lit "to_state"), .str t.toState.text),
    (.str (lit "actor"), .str t.actor), (.str (lit "approved_by"), optText t.approvedBy),
    (.str (lit "reason"), .str t.reason)]

/-! ## Reads -/

variable (P : Platform) (store : MissionStore)

/-- `_canonical` -/
def canonical (value : PyVal) (what : Str) : Except PyError Str :=
  match canonicalize P value with
  | .ok text => .ok text
  | .error (.raised _ exc) => .error (missionError (what ++ lit " is not canonical JSON: " ++ exc))
  | .error e => .error e

/-- `version_sha256` -/
def versionSha256 (kind : VersionKind) (parentSha256 : Option Str) (body : PyVal) :
    Except PyError Str :=
  sha256Hex P (.dict [(.str (lit "kind"), .str kind.text),
    (.str (lit "parent_sha256"), optText parentSha256), (.str (lit "body"), body)])

/-- `_row` -/
def row (db : MissionDb) (missionId : Str) : Except PyError MissionRow := do
  sqlTexts [missionId]
  match db.missions.find? fun m => m.missionId = missionId with
  | some m => .ok m
  | none => .error (missionError (lit "unknown mission " ++ store.repr missionId))

/-- The versions of one kind of a mission. -/
def MissionDb.versionsOf (db : MissionDb) (missionId : Str) (kind : VersionKind) :
    List VersionRow :=
  db.versions.filter fun v => v.missionId = missionId ∧ v.kind = kind

/-- `_latest` -/
def latest (db : MissionDb) (missionId : Str) (kind : VersionKind) : Option VersionRow :=
  (db.versionsOf missionId kind).argmax VersionRow.version

structure StaleVersion where
  kind : VersionKind
  version : Nat
  reason : Str

/-- One round of the loop in `_stale`. -/
def staleStep (db : MissionDb) (missionId : Str) (stale : List StaleVersion) (kind : VersionKind) :
    List StaleVersion :=
  match latest db missionId kind, parentKind kind with
  | some current, some parent =>
    if parent ∈ stale.map StaleVersion.kind then
      stale ++ [⟨kind, current.version, lit "its " ++ parent.text ++ lit " is stale"⟩]
    else
      match latest db missionId parent with
      | some p =>
        if current.parentSha256 ≠ some p.sha256 then
          stale ++ [⟨kind, current.version, lit "built against " ++ parent.text ++ lit " " ++
            (current.parentSha256.getD (lit "None")).take 12 ++ lit ", current " ++ parent.text ++
            lit " is v" ++ (intLit p.version).text ++ lit " " ++ p.sha256.take 12⟩]
        else stale
      | none => stale
  | _, _ => stale

/-- `_stale` -/
def stale (db : MissionDb) (missionId : Str) : List StaleVersion :=
  [VersionKind.plan, .taskGraph].foldl (staleStep db missionId) []

/-- `_REQUIRES_BLUEPRINT` -/
def requiresBlueprint (s : MissionState) : Bool := s = .blueprintReview

/-- `_REQUIRES_CURRENT_PLAN` -/
def requiresCurrentPlan (s : MissionState) : Bool := s = .planReview ∨ s = .building

/-- `_check_artifacts` -/
def checkArtifacts (db : MissionDb) (missionId : Str) (target : MissionState) :
    Except PyError Unit := do
  raiseIf (requiresBlueprint target ∧ (latest db missionId .blueprint).isNone)
    (missionError (target.text ++ lit " needs a blueprint version first"))
  if requiresCurrentPlan target then
    raiseIf (latest db missionId .plan).isNone
      (missionError (target.text ++ lit " needs a plan version first"))
    match (stale db missionId).filter fun s => s.kind = .plan with
    | s :: _ =>
      .error (missionError (target.text ++ lit " refused: plan v" ++ (intLit s.version).text ++
        lit " is stale (" ++ s.reason ++ lit ")"))
    | [] => .ok ()

/-! ## Writes -/

inductive MissionReply where
  | mission (m : MissionRow)
  | version (v : VersionRow)

/-- What a step hands to `_atomic`: the event, the tables and the result. -/
structure MissionStep where
  event : Option AppendCall
  db : MissionDb
  result : MissionReply

/-- `create`, at the time `now` and with the id that it draws. -/
def create (db : MissionDb) (missionId now objective createdBy : Str)
    (constraints : Option (List (PyKey × PyVal))) : Except PyError MissionStep := do
  let objective := strip objective
  raiseIf (objective = []) (missionError (lit "objective is required"))
  raiseIf (strip createdBy = []) (missionError (lit "created_by is required"))
  let constraintsJson ← canonical P (.dict (constraints.getD [])) (lit "constraints")
  let _ ← loads constraintsJson
  sqlTexts [missionId, objective, createdBy, now, now, constraintsJson]
  raiseIf (∃ m ∈ db.missions, m.missionId = missionId)
    (.databaseError (lit "UNIQUE constraint failed: missions.mission_id"))
  let mission : MissionRow :=
    ⟨missionId, objective, createdBy, now, now, .draft, none, constraintsJson⟩
  .ok ⟨some mission.call, { db with missions := db.missions ++ [mission] }, .mission mission⟩

/-- The hash of the version that the new one is built against. -/
def parentSha (db : MissionDb) (missionId : Str) (kind : VersionKind) :
    Except PyError (Option Str) :=
  match parentKind kind with
  | none => .ok none
  | some parent =>
    match latest db missionId parent with
    | some p => .ok (some p.sha256)
    | none => .error (missionError (lit "a " ++ kind.text ++ lit " is built against a " ++
        parent.text ++ lit "; this mission has none yet"))

/-- The `INSERT` of a version. -/
def insertVersion (db : MissionDb) (version : VersionRow) : Except PyError MissionStep := do
  sqlTexts [version.missionId, version.createdBy, version.createdAt, version.body]
  .ok ⟨some version.call, { db with versions := db.versions ++ [version] }, .version version⟩

/-- `add_version`. The number after the latest one is free. -/
def addVersion (db : MissionDb) (now missionId : Str) (kind : VersionKind) (body : PyVal)
    (createdBy : Str) : Except PyError MissionStep := do
  raiseIf (strip createdBy = []) (missionError (lit "created_by is required"))
  let bodyJson ← canonical P body (kind.text ++ lit " body")
  let mission ← row store db missionId
  raiseIf mission.state.terminal (missionError (lit "mission " ++ missionId ++ lit " is " ++
    mission.state.text ++ lit "; it takes no new versions"))
  let parent ← parentSha db missionId kind
  let sha ← versionSha256 P kind parent body
  match latest db missionId kind with
  | some v =>
    if v.sha256 = sha then .ok ⟨none, db, .version v⟩
    else insertVersion db ⟨missionId, kind, v.version + 1, sha, parent, createdBy, now, bodyJson⟩
  | none => insertVersion db ⟨missionId, kind, 1, sha, parent, createdBy, now, bodyJson⟩

/-- The `UPDATE` and the `INSERT` of a transition. -/
def MissionDb.move (db : MissionDb) (entry : TransitionRow) (newResume : Option MissionState) :
    MissionDb where
  missions := db.missions.map fun m =>
    if m.missionId = entry.missionId then
      { m with state := entry.toState, resumeState := newResume, updatedAt := entry.time }
    else m
  transitions := db.transitions ++ [entry]
  versions := db.versions

/-- `transition` -/
def transition (db : MissionDb) (now missionId toState actor reason : Str)
    (approvedBy : Option Str) : Except PyError MissionStep := do
  let target ← MissionState.ofText store.repr toState
  raiseIf (strip actor = []) (missionError (lit "actor is required"))
  raiseIf (strip reason = []) (missionError (lit "reason is required"))
  let mission ← row store db missionId
  let current := mission.state
  validateTransition current target mission.resumeState
  raiseIf (target.gateVerdict ∧ actor ≠ gateActor)
    (missionError (lit "only " ++ store.repr gateActor ++ lit " issues gate verdicts; " ++
      store.repr actor ++ lit " cannot move a mission to " ++ target.text))
  raiseIf (isHumanGated current target ∧ ∀ a ∈ approvedBy, a ∉ store.operators)
    (missionError (current.text ++ lit " -> " ++ target.text ++
      lit " needs approval from a configured operator (MSB_MISSION_OPERATORS); got " ++
      (approvedBy.map store.repr).getD (lit "None")))
  checkArtifacts db missionId target
  let newResume := if target = .blockedOnHuman then some current else none
  sqlTexts [now, missionId, actor, approvedBy.getD [], reason]
  let entry : TransitionRow :=
    ⟨db.transitions.length + 1, missionId, current, target, actor, approvedBy, reason, now⟩
  .ok ⟨some entry.call, db.move entry newResume,
    .mission { mission with state := target, resumeState := newResume, updatedAt := now }⟩

/-! ## What the steps do -/

variable {P store} {db : MissionDb} {now missionId : Str} {step : MissionStep}

theorem row_eq_ok {m : MissionRow} (h : row store db missionId = .ok m) :
    m ∈ db.missions ∧ m.missionId = missionId := by
  obtain ⟨-, -, h⟩ := bind_eq_ok.mp h
  split at h
  · next m' hfind =>
    obtain rfl := Except.ok.inj h
    exact ⟨List.mem_of_find?_eq_some hfind, by simpa using List.find?_some hfind⟩
  · cases h

/-- What a transition writes, and what it returns. -/
def moveStep (db : MissionDb) (m : MissionRow) (entry : TransitionRow) : MissionStep :=
  let newResume := if entry.toState = .blockedOnHuman then some m.state else none
  ⟨some entry.call, db.move entry newResume,
    .mission { m with state := entry.toState, resumeState := newResume, updatedAt := entry.time }⟩

/-- A transition follows the matrix from the row that it finds. A verdict is issued by the gate
actor, a human-gated move is approved by an operator, and the artifacts of the target are there. -/
theorem transition_eq_ok {toState actor reason : Str} {approvedBy : Option Str} :
    transition store db now missionId toState actor reason approvedBy = .ok step ↔
    ∃ target m, MissionState.ofText store.repr toState = .ok target ∧ strip actor ≠ [] ∧
      strip reason ≠ [] ∧ row store db missionId = .ok m ∧
      target ∈ allowedTargets m.state m.resumeState ∧
      (target.gateVerdict = true → actor = gateActor) ∧
      (isHumanGated m.state target = true → ∃ a ∈ approvedBy, a ∈ store.operators) ∧
      checkArtifacts db missionId target = .ok () ∧
      sqlTexts [now, missionId, actor, approvedBy.getD [], reason] = .ok () ∧
      moveStep db m ⟨db.transitions.length + 1, missionId, m.state, target, actor, approvedBy,
        reason, now⟩ = step := by
  simp only [transition, bind_eq_ok, raiseIf_eq_ok, exists_unit, validateTransition_eq_ok]
  constructor
  · rintro ⟨target, htarget, hactor, hreason, m, hrow, hvalid, hgate, hhuman, hart, htexts, hstep⟩
    refine ⟨target, m, htarget, hactor, hreason, hrow, hvalid, ?_, ?_, hart, htexts,
      Except.ok.inj hstep⟩
    · intro hg
      by_contra hne
      exact hgate ⟨hg, hne⟩
    · intro hh
      by_contra hnone
      push Not at hnone
      exact hhuman ⟨hh, hnone⟩
  · rintro ⟨target, m, htarget, hactor, hreason, hrow, hvalid, hgate, hhuman, hart, htexts, rfl⟩
    refine ⟨target, htarget, hactor, hreason, m, hrow, hvalid, fun h => h.2 (hgate h.1), ?_, hart,
      htexts, rfl⟩
    rintro ⟨hh, hnone⟩
    obtain ⟨a, ha, hop⟩ := hhuman hh
    exact hnone a ha hop

/-- A new mission is a draft without versions, and its id is new. -/
theorem create_spec {objective createdBy : Str} {constraints : Option (List (PyKey × PyVal))}
    (h : create P db missionId now objective createdBy constraints = .ok step) :
    ∃ m : MissionRow, m.missionId = missionId ∧ m.state = .draft ∧ m.resumeState = none ∧
      (∀ x ∈ db.missions, x.missionId ≠ missionId) ∧ step.event = some m.call ∧
      step.db = { db with missions := db.missions ++ [m] } := by
  simp only [create, bind_eq_ok, raiseIf_eq_ok, exists_unit] at h
  obtain ⟨-, -, constraintsJson, -, -, -, -, hnew, hstep⟩ := h
  have hfresh : ∀ x ∈ db.missions, x.missionId ≠ missionId := fun x hx hid => hnew ⟨x, hx, hid⟩
  rw [← Except.ok.inj hstep]
  exact ⟨_, rfl, rfl, rfl, hfresh, rfl, rfl⟩

/-- A new version takes the next number of its kind, or it is the latest one again. -/
theorem addVersion_spec {kind : VersionKind} {body : PyVal} {createdBy : Str}
    (h : addVersion P store db now missionId kind body createdBy = .ok step) :
    (∃ m, row store db missionId = .ok m ∧ m.state.terminal = false) ∧
    ((step.event = none ∧ step.db = db) ∨
      ∃ v : VersionRow, v.missionId = missionId ∧ v.kind = kind ∧
        v.version = ((latest db missionId kind).map VersionRow.version).getD 0 + 1 ∧
        step.event = some v.call ∧ step.db = { db with versions := db.versions ++ [v] }) := by
  simp only [addVersion, bind_eq_ok, raiseIf_eq_ok, exists_unit] at h
  obtain ⟨-, bodyJson, -, m, hrow, hterm, parent, -, sha, -, hstep⟩ := h
  refine ⟨⟨m, hrow, by simpa using hterm⟩, ?_⟩
  have hinsert : ∀ v : VersionRow, insertVersion db v = .ok step →
      step.event = some v.call ∧ step.db = { db with versions := db.versions ++ [v] } := by
    intro v hv
    obtain ⟨-, -, hv⟩ := bind_eq_ok.mp hv
    rw [← Except.ok.inj hv]
    exact ⟨rfl, rfl⟩
  rcases hlatest : latest db missionId kind with - | v
  · rw [hlatest] at hstep
    exact Or.inr ⟨_, rfl, rfl, rfl, hinsert _ hstep⟩
  · rw [hlatest] at hstep
    dsimp only at hstep
    split_ifs at hstep with hsame
    · rw [← Except.ok.inj hstep]
      exact Or.inl ⟨rfl, rfl⟩
    · exact Or.inr ⟨_, rfl, rfl, rfl, hinsert _ hstep⟩

end Mission
