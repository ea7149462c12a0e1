import Msb.Infra.Run
import Msb.Infra.Text

/-!
# The kill switch

`governance/killswitch.py`: one row for the global switch, one row for each scope that is armed. A
switch that cannot be read counts as armed.

* `hasScope_iff` — the scope rows tell the last operation on each scope
-/

namespace Governance

open Py Machine

/-! ## The tables -/

/-- `SCOPE_TYPES` -/
inductive ScopeType where
  | tenant
  | agent
  | task
  | tool
  | capability
  | resource
  deriving DecidableEq

namespace ScopeType

def text : ScopeType → Str
  | .tenant => lit "tenant"
  | .agent => lit "agent"
  | .task => lit "task"
  | .tool => lit "tool"
  | .capability => lit "capability"
  | .resource => lit "resource"

/-- The types in the order of their names. -/
def all : List ScopeType := [.agent, .capability, .resource, .task, .tenant, .tool]

def ofText (text : Str) : Option ScopeType := all.find? fun t => t.text = text

end ScopeType

/-- The row of `kill_switch_state`. -/
structure SwitchRow where
  armed : Bool
  armedAt : Option Str
  armedBy : Option Str
  reason : Option Str
  deriving DecidableEq

/-- A row of `kill_switch_scopes`, with its key. -/
structure ScopeRow where
  scopeType : ScopeType
  scopeId : Str
  armed : Bool
  armedAt : Str
  armedBy : Str
  reason : Str
  deriving DecidableEq

structure KillSwitch where
  global : Option SwitchRow
  scopes : List ScopeRow
  deriving DecidableEq

namespace KillSwitch

/-- A new database. -/
def init : KillSwitch := ⟨some ⟨false, none, none, none⟩, []⟩

/-! ## Reads

`readable` says whether the database answers. -/

/-- `is_armed` -/
def isArmed (switch : KillSwitch) (readable : Bool) : Bool :=
  if readable then
    match switch.global with
    | none => true
    | some row => row.armed
  else true

def scopeRow (switch : KillSwitch) (scopeType : ScopeType) (scopeId : Str) : Option ScopeRow :=
  switch.scopes.find? fun row => row.scopeType = scopeType ∧ row.scopeId = scopeId

/-- `scope_state(scope_type, scope_id)["armed"]` -/
def scopeArmed (switch : KillSwitch) (readable : Bool) (scopeType : ScopeType)
    (scopeId : Str) : Bool :=
  if readable then
    match switch.scopeRow scopeType scopeId with
    | none => false
    | some row => row.armed
  else true

/-- `is_blocked` -/
def isBlocked (switch : KillSwitch) (readable : Bool) (scopeType : ScopeType)
    (scopeId : Str) : Bool :=
  switch.isArmed readable || switch.scopeArmed readable scopeType scopeId

/-! ## Operations -/

/-- What an operation is called with, and when. -/
structure Order where
  operator : Str
  reason : Str
  now : Str

def arm (switch : KillSwitch) (order : Order) : KillSwitch :=
  { switch with
    global := switch.global.map fun _ =>
      ⟨true, some order.now, some order.operator, some order.reason⟩ }

def disarm (switch : KillSwitch) : KillSwitch :=
  { switch with global := switch.global.map fun _ => ⟨false, none, none, none⟩ }

/-- The rows of the other scopes. -/
def others (scopes : List ScopeRow) (scopeType : ScopeType) (scopeId : Str) : List ScopeRow :=
  scopes.filter fun row => ¬ (row.scopeType = scopeType ∧ row.scopeId = scopeId)

/-- `arm_scope`: the row is inserted, or it replaces the one of the scope. -/
def armScope (repr : Str → Str) (switch : KillSwitch) (scopeType scopeId : Str) (order : Order) :
    Except PyError KillSwitch :=
  match ScopeType.ofText scopeType with
  | none =>
    .error (.valueError (lit "unknown scope type " ++ repr scopeType ++ lit " (allowed: [" ++
      (lit ", ").intercalate (ScopeType.all.map fun t => repr t.text) ++ lit "])"))
  | some t => do
    raiseIf (scopeId = []) (.valueError (lit "scope_id is required"))
    .ok { switch with
      scopes := others switch.scopes t scopeId ++
        [⟨t, scopeId, true, order.now, order.operator, order.reason⟩] }

/-- `disarm_scope`: the row of the scope is deleted, whatever the scope is called. -/
def disarmScope (switch : KillSwitch) (scopeType scopeId : Str) : KillSwitch :=
  match ScopeType.ofText scopeType with
  | none => switch
  | some t => { switch with scopes := others switch.scopes t scopeId }

end KillSwitch

/-! ## Runs -/

/-- A call, and the database error that stops it, where there is one. -/
inductive SwitchEvent where
  | arm (order : KillSwitch.Order)
  | disarm
  | armScope (scopeType scopeId : Str) (order : KillSwitch.Order)
  | disarmScope (scopeType scopeId : Str)
  | failed

def switchStep (repr : Str → Str) (switch : KillSwitch) : SwitchEvent → Option KillSwitch
  | .arm order => some (switch.arm order)
  | .disarm => some switch.disarm
  | .armScope scopeType scopeId order =>
    some ((switch.armScope repr scopeType scopeId order).toOption.getD switch)
  | .disarmScope scopeType scopeId => some (switch.disarmScope scopeType scopeId)
  | .failed => some switch

/-- What an event does to a scope: it arms it, it disarms it, or neither. -/
def SwitchEvent.effect (scopeType : ScopeType) (scopeId : Str) : SwitchEvent → Option Bool
  | .armScope t id _ =>
    if ScopeType.ofText t = some scopeType ∧ id = scopeId ∧ id ≠ [] then some true else none
  | .disarmScope t id =>
    if ScopeType.ofText t = some scopeType ∧ id = scopeId then some false else none
  | _ => none

/-- The scope is armed: the last event that touches it arms it. -/
def ArmedBy (es : List SwitchEvent) (scopeType : ScopeType) (scopeId : Str) : Prop :=
  (es.filterMap fun e => e.effect scopeType scopeId).getLast? = some true

variable {repr : Str → Str}

/-- The scope has a row, and it is armed. -/
def KillSwitch.HasScope (switch : KillSwitch) (scopeType : ScopeType) (scopeId : Str) : Prop :=
  ∃ row, switch.scopeRow scopeType scopeId = some row ∧ row.armed = true

/-- The rows that are left are found as before. -/
theorem find?_others {scopes : List ScopeRow} {t scopeType : ScopeType} {id scopeId : Str} :
    (KillSwitch.others scopes t id).find? (fun row => row.scopeType = scopeType ∧
      row.scopeId = scopeId) = if t = scopeType ∧ id = scopeId then none
        else scopes.find? fun row => row.scopeType = scopeType ∧ row.scopeId = scopeId := by
  induction scopes with
  | nil => simp [KillSwitch.others]
  | cons row rows ih =>
    simp only [KillSwitch.others] at ih ⊢
    rw [List.filter_cons, List.find?_cons]
    by_cases hrow : row.scopeType = t ∧ row.scopeId = id
    · obtain ⟨rfl, rfl⟩ := hrow
      by_cases hsame : row.scopeType = scopeType ∧ row.scopeId = scopeId
      · simpa [hsame] using ih
      · simpa [hsame] using ih
    · by_cases hsame : row.scopeType = scopeType ∧ row.scopeId = scopeId
      · obtain ⟨rfl, rfl⟩ := hsame
        have hne : ¬ (t = row.scopeType ∧ id = row.scopeId) := fun h => hrow ⟨h.1.symm, h.2.symm⟩
        simp [hrow, hne]
      · simpa [hrow, hsame] using ih

/-- **What one event does to a scope.** -/
theorem hasScope_step {switch next : KillSwitch} {e : SwitchEvent} {scopeType : ScopeType}
    {scopeId : Str} (h : switchStep repr switch e = some next) :
    next.HasScope scopeType scopeId ↔
      e.effect scopeType scopeId = some true ∨
        e.effect scopeType scopeId = none ∧ switch.HasScope scopeType scopeId := by
  cases e with
  | arm order =>
    obtain rfl := Option.some.inj h
    simp [SwitchEvent.effect, KillSwitch.HasScope, KillSwitch.arm, KillSwitch.scopeRow]
  | disarm =>
    obtain rfl := Option.some.inj h
    simp [SwitchEvent.effect, KillSwitch.HasScope, KillSwitch.disarm, KillSwitch.scopeRow]
  | failed =>
    obtain rfl := Option.some.inj h
    simp [SwitchEvent.effect]
  | disarmScope t id =>
    obtain rfl := Option.some.inj h
    unfold KillSwitch.disarmScope SwitchEvent.effect
    cases ht : ScopeType.ofText t with
    | none => simp [ht]
    | some t' =>
      simp only [KillSwitch.HasScope, KillSwitch.scopeRow, find?_others, ht, Option.some.injEq]
      by_cases hsame : t' = scopeType ∧ id = scopeId
      · simp [hsame]
      · simp [hsame]
  | armScope t id order =>
    obtain rfl := Option.some.inj h
    unfold KillSwitch.armScope SwitchEvent.effect
    cases ht : ScopeType.ofText t with
    | none => simp [ht, Except.toOption]
    | some t' =>
      by_cases hid : id = []
      · simp [ht, hid, raiseIf, bind, Except.bind, Except.toOption]
      · simp only [ht, hid, raiseIf, if_false, bind, Except.bind, Except.toOption, Option.getD_some,
          KillSwitch.HasScope, KillSwitch.scopeRow, List.find?_append, find?_others,
          Option.some.injEq,
          ne_eq, not_false_eq_true, and_true]
        by_cases hsame : t' = scopeType ∧ id = scopeId
        · simp [hsame]
        · simp [hsame]

/-- **The scope rows tell the last operation on each scope.** -/
theorem hasScope_iff {es : List SwitchEvent} {switch : KillSwitch}
    (h : run (switchStep repr) .init es = some switch) (scopeType : ScopeType) (scopeId : Str) :
    switch.HasScope scopeType scopeId ↔ ArmedBy es scopeType scopeId := by
  refine run_induction (P := fun es t => t.HasScope scopeType scopeId ↔
    ArmedBy es scopeType scopeId) ?_ (fun es t e u _ ih hstep => ?_) h
  · simp [KillSwitch.HasScope, KillSwitch.init, KillSwitch.scopeRow, ArmedBy]
  · rw [hasScope_step hstep, ih]
    unfold ArmedBy
    rw [List.filterMap_append]
    cases heffect : e.effect scopeType scopeId with
    | none => simp [heffect]
    | some b => simp [heffect]

/-- A readable switch says that a scope is armed when it has its row. -/
theorem scopeArmed_iff {switch : KillSwitch} {scopeType : ScopeType} {scopeId : Str} :
    switch.scopeArmed true scopeType scopeId = true ↔ switch.HasScope scopeType scopeId := by
  unfold KillSwitch.scopeArmed KillSwitch.HasScope
  cases switch.scopeRow scopeType scopeId with
  | none => simp
  | some row => simp

end Governance
