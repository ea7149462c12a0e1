import Msb.Agent.Executor
import Msb.Agent.Planner

/-!
# Tools and their capabilities

The gate decides on a capability, not on a tool. A tool that `TOOL_CAPABILITY` does not list has no
capability of its own: its call is gated under the first one that the task declares.

* `calls_ownGated_iff` — when no call of a run escapes its own gate
* `not_ownGated` — a task of the planner that calls an unknown tool as a read
-/

namespace Agent

open Py

/-- The call is passed on only where the gate decides `SAFE` for the capability of the tool itself.
-/
def Call.OwnGated (c : Call) : Prop :=
  c.Delegated → ∃ own, toolCapability c.name = some own ∧
    (decideGate c.env.switch { c.before.gateCall c.name c.task with capability := own }).action =
    .safe

/-- What the gate is asked for an unknown tool: the first declared capability, or `read_vault`. -/
def Call.borrowed (c : Call) : GateCall :=
  { c.before.gateCall c.name c.task with
    capability := c.task.requiredCapabilities.headD (lit "read_vault") }

/-- The tool is listed, or the switch or the rules of the gate stop the capability that it borrows.
-/
def Call.BorrowRefused (c : Call) : Prop :=
  (∃ own, toolCapability c.name = some own) ∨ ¬ SwitchClear c.env.switch c.borrowed ∨
    ¬ Admissible c.borrowed

theorem Call.gateCall_of_unlisted {c : Call} (h : toolCapability c.name = none) :
    c.before.gateCall c.name c.task = c.borrowed := by
  unfold Call.borrowed SafeProvider.gateCall Task.capabilityOf
  rw [h]
  rfl

theorem Call.gateCall_of_listed {c : Call} {own : Str} (h : toolCapability c.name = some own) :
    { c.before.gateCall c.name c.task with capability := own } =
    c.before.gateCall c.name c.task := by
  unfold SafeProvider.gateCall Task.capabilityOf
  rw [h]
  rfl

theorem Call.ownGated_iff {c : Call} : c.OwnGated ↔ c.BorrowRefused := by
  unfold Call.OwnGated Call.BorrowRefused
  cases hown : toolCapability c.name with
  | some own =>
    simp only [Option.some.injEq, exists_eq_left', exists_eq', true_or, iff_true,
      Call.gateCall_of_listed hown]
    exact fun h => h
  | none =>
    have hdelegated : c.Delegated ↔ SwitchClear c.env.switch c.borrowed ∧
        Admissible c.borrowed := by
      rw [← Call.gateCall_of_unlisted hown]
      exact SafeProvider.attempt_delegated_iff
    simp only [reduceCtorEq, false_and, exists_false, imp_false, false_or, hdelegated]
    exact not_and_or

/-- **When no call of a run escapes its own gate**: for every graph, whatever happens around the
calls. -/
theorem calls_ownGated_iff (env : Nat → CallEnv) (int : Str → Option Int)
    (verify : Task → Outputs → Except PyError Receipt) (repr : List Str → Str) (graph : TaskGraph)
    (provider : SafeProvider) :
    (∀ c ∈ (executeGraph env int verify repr graph provider).2.calls, c.OwnGated) ↔
      ∀ c ∈ (executeGraph env int verify repr graph provider).2.calls, c.BorrowRefused :=
  forall₂_congr fun _ _ => Call.ownGated_iff

/-! ### An unknown tool -/

/-- A library for texts of ASCII letters. -/
def asciiLib : PlanLib where
  isAlnum := fun c => (48 ≤ c.val ∧ c.val ≤ 57) ∨ (65 ≤ c.val ∧ c.val ≤ 90) ∨
    (97 ≤ c.val ∧ c.val ≤ 122)
  str := fun v =>
    match v with
    | .str s => s
    | _ => []

/-- What the model answers. -/
def tidyAnswer : List (PyKey × PyVal) :=
  [(.str (lit "tasks"), .list [.dict
    [(.str (lit "task_id"), .str (lit "tidy")), (.str (lit "goal"), .str (lit "Tidy the notes")),
      (.str (lit "parent_id"), .none), (.str (lit "capabilities"), .list [.str (lit "read_vault")]),
      (.str (lit "tools"), .list [.str (lit "delete_note")]),
      (.str (lit "verification_method"), .str (lit "search_returned_hits"))]])]

def tidyIntent : Intent := ⟨lit "tidy my notes", [], []⟩

/-- The calls of a run in which everything succeeds. -/
def tidyCalls : List Call :=
  (executeGraph (fun _ => ⟨none, .ok .none⟩) (fun _ => none) (fun _ _ => .ok ⟨true, []⟩)
    (fun _ => []) (plan asciiLib tidyIntent (some tidyAnswer)) ⟨[], none, []⟩).2.calls

/-- The planner emits the tool, and its call goes through as a read. -/
theorem not_ownGated : ¬ ∀ (lib : PlanLib) (graph : TaskGraph), Emits lib graph →
    ∀ (env : Nat → CallEnv) (int : Str → Option Int)
    (verify : Task → Outputs → Except PyError Receipt)
      (repr : List Str → Str) (provider : SafeProvider),
      ∀ c ∈ (executeGraph env int verify repr graph provider).2.calls, c.OwnGated := by
  intro hall
  have hcalls : ∀ c ∈ tidyCalls, c.OwnGated := hall asciiLib _ ⟨_, _, rfl⟩ _ _ _ _ _
  have hnames : tidyCalls.map (fun c => (c.name, c.attempt.verdict.action))
      = [(lit "delete_note", .safe)] := by
    decide +kernel
  obtain ⟨c, hc, hcall⟩ : ∃ c ∈ tidyCalls,
      (c.name, c.attempt.verdict.action) = (lit "delete_note", .safe) := by
    rw [← List.mem_map, hnames]
    exact List.mem_cons_self
  obtain ⟨hname, hsafe⟩ := Prod.mk.inj hcall
  obtain ⟨own, hown, -⟩ := hcalls c hc hsafe
  rw [hname] at hown
  have hnone : toolCapability (lit "delete_note") = none := by decide
  cases hnone.symm.trans hown

end Agent
