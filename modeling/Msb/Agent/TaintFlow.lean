import Msb.Agent.Executor
import Msb.Agent.Planner

/-!
# Taint

A task is marked when a call of it succeeds that read untrusted content or had a marked task among
its inputs. The marks are read for the declared inputs only: the task's own mark is not, and a task
without tools makes no call, so it is never marked.

* `taint_flows` — graphs in which untrusted content drives no escalated call
* `not_taint_flows` — one task that searches and writes
-/

namespace Agent

open Py

/-! ## Data flow -/

/-- The task of the id `t` declares the output of `s` as an input. -/
def TaskGraph.Declares (graph : TaskGraph) (s t : Str) : Prop :=
  ∃ task ∈ graph.tasks, task.taskId = t ∧ s ∈ task.sources

/-- The output of `s` reaches `t` through declared inputs. -/
def TaskGraph.Reaches (graph : TaskGraph) : Str → Str → Prop := Relation.TransGen graph.Declares

/-- The first call took untrusted content in, the second one is an escalated call that nobody
approved, and the content of the first reaches the second. -/
structure Leak (graph : TaskGraph) (x y : Call) : Prop where
  read : x.Delegated
  untrusted : x.name ∈ taintedTools
  wrote : y.Delegated
  escalated : y.attempt.capability ∈ taintEscalated
  unapproved : y.attempt.capability ∉ y.before.approved
  flows : x.task.taskId = y.task.taskId ∨ graph.Reaches x.task.taskId y.task.taskId

/-! ## Graphs in which the marks are enough -/

namespace SafeProvider

variable (p : SafeProvider)

/-- The call passes the gate where no input is tainted and the switch is clear. -/
def Passes (task : Task) (name : Str) : Prop :=
  Admissible { p.gateCall name task with taintedInputs := false }

def Taints (task : Task) (name : Str) : Prop := p.Passes task name ∧ name ∈ taintedTools

def Escalates (task : Task) (name : Str) : Prop :=
  p.Passes task name ∧ task.capabilityOf name ∈ taintEscalated ∧ task.capabilityOf name ∉ p.approved

end SafeProvider

/-- The mark of `a` is there when `b` runs, and `b` reads it. -/
structure Feeds (ordered : List Task) (a b : Task) : Prop where
  before : [a, b].Sublist ordered
  declared : a.taskId ∈ b.sources
  named : a.taskId ≠ []
  calls : a.tools ≠ []

/-- No task reads untrusted content and goes on to an escalated call, and whatever reaches a later
task with such a call reaches it through tasks that are marked. -/
structure Guarded (graph : TaskGraph) (p : SafeProvider) (int : Str → Option Int)
    (ordered : List Task) : Prop where
  alone : ∀ task ∈ ordered, (schedule task (retryAttempts int task.retryPolicy)).Pairwise fun a b =>
    p.Taints task a → ¬ p.Escalates task b
  fed : ∀ a b, [a, b].Sublist ordered → (∃ name ∈ a.tools, p.Taints a name) →
    (∃ name ∈ b.tools, p.Escalates b name) → graph.Reaches a.taskId b.taskId →
    Relation.TransGen (Feeds ordered) a b

/-! ## The marks -/

variable {graph : TaskGraph} {p : SafeProvider} {int : Str → Option Int} {ordered : List Task}

/-- A call that was passed on passes the gate where no input is tainted. -/
theorem Call.Delegated.passes {c : Call} (h : c.Delegated) (hext : p.Ext c.before) :
    p.Passes c.task c.name := by
  have hadmissible := (SafeProvider.attempt_delegated_iff.mp h).2
  refine ⟨hadmissible.registered, hadmissible.low, fun granted hgranted => ?_,
    fun hfalse => by cases hfalse⟩
  exact hadmissible.granted granted (hext.granted.trans hgranted)

/-- A call with tainted inputs that was passed on is approved where it is escalated. -/
theorem Call.Delegated.approved {c : Call} (h : c.Delegated)
    (hflow : c.before.taintedInputs c.task = true)
    (hescalated : c.attempt.capability ∈ taintEscalated) :
    c.attempt.capability ∈ c.before.approved :=
  (SafeProvider.attempt_delegated_iff.mp h).2.untainted hflow hescalated

/-- What ran before a task, in an order without repetition. -/
theorem mem_of_sublist_pair {a task : Task} {done tail : List Task}
    (hnodup : (done ++ task :: tail).Nodup)
    (h : [a, task].Sublist (done ++ task :: tail)) : a ∈ done := by
  obtain ⟨-, hcons, hdisjoint⟩ := List.nodup_append.mp hnodup
  have htail : task ∉ tail := (List.nodup_cons.mp hcons).1
  have hdone : task ∉ done := fun hmem => hdisjoint task hmem task List.mem_cons_self rfl
  obtain ⟨l, m, hlm, hl, hm⟩ := List.sublist_append_iff.mp h
  cases l with
  | nil =>
    obtain rfl : [a, task] = m := by simpa using hlm
    cases hm with
    | cons _ hm => exact absurd (hm.subset (by simp)) htail
    | cons_cons _ hm => exact absurd (hm.subset (by simp)) htail
  | cons b l =>
    obtain ⟨rfl, -⟩ := List.cons.inj hlm
    exact hl.subset List.mem_cons_self

/-- What holds between two tasks of a run. -/
structure Marked (graph : TaskGraph) (p : SafeProvider) (ordered done : List Task) (x : Exec) :
    Prop where
  ran : ∀ c ∈ x.calls, c.task ∈ done
  listed : ∀ c ∈ x.calls, c.name ∈ c.task.tools
  before : ∀ c ∈ x.calls, p.Ext c.before
  ext : p.Ext x.provider
  safe : x.calls.Pairwise fun c d => ¬ Leak graph c d
  marks : ∀ t ∈ done, ∀ a, Relation.ReflTransGen (Feeds ordered) a t →
    (∃ name ∈ a.tools, name ∈ taintedTools) → t.tools ≠ [] → t.taskId ∈ x.provider.tainted

theorem mem_schedule {task : Task} {retries : Nat} {name : Str} (h : name ∈ schedule task retries) :
    name ∈ task.tools := by
  obtain ⟨l, hl, hname⟩ := List.mem_flatten.mp h
  rwa [(List.mem_replicate.mp hl).2] at hname

variable {done tail : List Task} {task : Task} {x : Exec}

/-- A task that untrusted content reaches through marked tasks has tainted inputs. -/
theorem Marked.taintedInputs (h : Marked graph p ordered done x)
    (hordered : ordered = done ++ task :: tail)
    (hnodup : ordered.Nodup) {a : Task} (hpath : Relation.TransGen (Feeds ordered) a task)
    (htaints : ∃ name ∈ a.tools, name ∈ taintedTools) : x.provider.taintedInputs task = true := by
  obtain ⟨c, hpath, hfeeds⟩ := Relation.TransGen.tail'_iff.mp hpath
  have hc : c ∈ done := mem_of_sublist_pair (hordered ▸ hnodup) (hordered ▸ hfeeds.before)
  have hmark := h.marks c hc a hpath htaints hfeeds.calls
  unfold SafeProvider.taintedInputs
  rw [List.any_eq_true]
  exact ⟨c.taskId, hfeeds.declared, by simp [hfeeds.named, hmark]⟩

variable {env : Nat → CallEnv} {verify : Task → Outputs → Except PyError Receipt}

/-- The calls of one more task leak nothing. -/
theorem Marked.safe_append (h : Marked graph p ordered done x)
    (hguarded : Guarded graph p int ordered)
    (hordered : ordered = done ++ task :: tail) (hnodup : (ordered.map Task.taskId).Nodup)
    {y : Exec} {new : List Call}
    (hran : Ran task (schedule task (retryAttempts int task.retryPolicy)) x y new) :
    (x.calls ++ new).Pairwise fun c d => ¬ Leak graph c d := by
  have hext : ∀ c ∈ new, p.Ext c.before := fun c hc => h.ext.trans (hran.before c hc)
  have htask : task ∈ ordered := by
    rw [hordered]
    exact List.mem_append_right _ List.mem_cons_self
  have hname : ∀ c ∈ new, c.name ∈ task.tools := fun c hc =>
    mem_schedule (hran.names.subset (List.mem_map_of_mem hc))
  have hescalates : ∀ {c d : Call}, d ∈ new → Leak graph c d → p.Escalates task d.name := by
    intro c d hd hleak
    have hd' := hran.task d hd
    refine ⟨hd' ▸ hleak.wrote.passes (hext d hd), hd' ▸ hleak.escalated, ?_⟩
    rw [← (hext d hd).approved]
    exact hd' ▸ hleak.unapproved
  rw [List.pairwise_append]
  refine ⟨h.safe, ?_, fun c hc d hd hleak => ?_⟩
  · -- within the task: the calls follow the schedule
    have hpair := List.pairwise_map.mp ((hguarded.alone task htask).sublist hran.names)
    refine hpair.imp_of_mem fun {c d} hc hd hcond hleak => ?_
    exact hcond ⟨hran.task c hc ▸ hleak.read.passes (hext c hc), hleak.untrusted⟩
      (hescalates hd hleak)
  · -- from an earlier task: its mark has come as far as this one
    have hmem := h.ran c hc
    have hne : c.task.taskId ≠ task.taskId := by
      rw [hordered, List.map_append, List.map_cons] at hnodup
      exact (List.nodup_append.mp hnodup).2.2 _ (List.mem_map_of_mem hmem) _ List.mem_cons_self
    have hreaches : graph.Reaches c.task.taskId task.taskId := by
      have hflows := hleak.flows
      rw [hran.task d hd] at hflows
      exact hflows.resolve_left hne
    have hbefore : [c.task, task].Sublist ordered := by
      rw [hordered]
      exact (List.singleton_sublist.mpr hmem).append (List.singleton_sublist.mpr List.mem_cons_self)
    have hpath := hguarded.fed c.task task hbefore
      ⟨c.name, h.listed c hc, hleak.read.passes (h.before c hc), hleak.untrusted⟩
      ⟨d.name, hname d hd, hescalates hd hleak⟩ hreaches
    have hflow :=
      h.taintedInputs hordered hnodup.of_map hpath ⟨c.name, h.listed c hc, hleak.untrusted⟩
    refine hleak.unapproved (hleak.wrote.approved ?_ hleak.escalated)
    rw [hran.task d hd]
    exact (hran.before d hd).taintedInputs hflow

/-- **One task of a run.** -/
theorem Marked.step (h : Marked graph p ordered done x) (hguarded : Guarded graph p int ordered)
    (hordered : ordered = done ++ task :: tail) (hnodup : (ordered.map Task.taskId).Nodup) :
    (executeTask env int verify task x).2.calls.Pairwise (fun c d => ¬ Leak graph c d) ∧
      ∀ result y, executeTask env int verify task x = (.ok result, y) → result.ok = true →
        Marked graph p ordered (done ++ [task]) y := by
  obtain ⟨new, hran, hdone⟩ := @executeTask_spec env int verify task x
  have hsafe := h.safe_append hguarded hordered hnodup hran
  refine ⟨by rw [hran.calls]; exact hsafe, fun result y hy hok => ?_⟩
  obtain ⟨hflow, htaints⟩ := hdone result y hy hok
  rw [hy] at hran
  refine ⟨?_, ?_, ?_, h.ext.trans hran.after, by rw [hran.calls]; exact hsafe, ?_⟩
  · intro c hc
    rw [hran.calls] at hc
    rcases List.mem_append.mp hc with hc | hc
    · exact List.mem_append_left _ (h.ran c hc)
    · rw [hran.task c hc]
      exact List.mem_append_right _ (List.mem_singleton.mpr rfl)
  · intro c hc
    rw [hran.calls] at hc
    rcases List.mem_append.mp hc with hc | hc
    · exact h.listed c hc
    · rw [hran.task c hc]
      exact mem_schedule (hran.names.subset (List.mem_map_of_mem hc))
  · intro c hc
    rw [hran.calls] at hc
    rcases List.mem_append.mp hc with hc | hc
    · exact h.before c hc
    · exact h.ext.trans (hran.before c hc)
  · intro t ht a hpath hname hcalls
    rcases List.mem_append.mp ht with ht | ht
    · exact hran.after.tainted (h.marks t ht a hpath hname hcalls)
    · obtain rfl := List.mem_singleton.mp ht
      rcases Relation.reflTransGen_iff_eq_or_transGen.mp hpath with rfl | hpath
      · exact htaints hname
      · exact hflow hcalls (h.taintedInputs hordered hnodup.of_map hpath hname)

/-! ## Runs -/

/-- **Taint flows with the data** in a guarded graph, whatever the switch, the provider and the
verifier do: no escalated call that nobody approved comes after untrusted content that reaches it.
-/
theorem taint_flows {repr : List Str → Str}
    (hguarded : ∀ ordered, graph.order repr = .ok ordered → Guarded graph p int ordered) :
    (executeGraph env int verify repr graph p).2.calls.Pairwise fun x y => ¬ Leak graph x y := by
  unfold executeGraph
  cases horder : graph.order repr with
  | error e => exact List.Pairwise.nil
  | ok ordered =>
    have hnodup := (TaskGraph.nodup_of_order horder).1
    refine executeTasks_induction (P := Marked graph p ordered)
      (Q := fun x => x.calls.Pairwise fun c d => ¬ Leak graph c d)
      (fun done x h => h.safe) [] (fun mid task tail y hrest h => ?_) ?_
    · exact h.step (hguarded ordered horder) hrest hnodup
    · exact ⟨by simp, by simp, by simp, .refl p, List.Pairwise.nil, by simp⟩

/-! ### Two graphs -/

/-- A provider without approvals. -/
def bareProvider : SafeProvider := ⟨[], none, []⟩

/-- Every call succeeds. -/
def calmEnv : Nat → CallEnv := fun _ => ⟨none, .ok .none⟩

def briefIntent : Intent := ⟨lit "write a brief", [], [lit "write_file"]⟩

theorem guarded_template {int : Str → Option Int} :
    Guarded (templateDag briefIntent) bareProvider int
      [researchTask briefIntent, synthesizeTask, writeTask] := by
  constructor
  · intro task htask
    refine List.pairwise_of_forall_mem_list fun a ha b hb htaints hescalates => ?_
    replace ha := mem_schedule ha
    replace hb := mem_schedule hb
    simp only [List.mem_cons, List.not_mem_nil, or_false] at htask
    rcases htask with rfl | rfl | rfl
    · obtain rfl := List.mem_singleton.mp hb
      exact absurd hescalates.2.1 (by decide)
    · obtain rfl := List.mem_singleton.mp hb
      exact absurd hescalates.2.1 (by decide)
    · obtain rfl := List.mem_singleton.mp ha
      exact absurd htaints.2 (by decide)
  · rintro a b hab ⟨name, hname, htaints⟩ ⟨tool, htool, hescalates⟩ -
    have ha := hab.subset (List.mem_cons_self (a := a) (l := [b]))
    have hb := hab.subset (List.mem_cons_of_mem a List.mem_cons_self)
    simp only [List.mem_cons, List.not_mem_nil, or_false] at ha hb
    obtain rfl : a = researchTask briefIntent := by
      rcases ha with rfl | rfl | rfl
      · rfl
      · obtain rfl := List.mem_singleton.mp hname
        exact absurd htaints.2 (by decide)
      · obtain rfl := List.mem_singleton.mp hname
        exact absurd htaints.2 (by decide)
    obtain rfl : b = writeTask := by
      rcases hb with rfl | rfl | rfl
      · obtain rfl := List.mem_singleton.mp htool
        exact absurd hescalates.2.1 (by decide)
      · obtain rfl := List.mem_singleton.mp htool
        exact absurd hescalates.2.1 (by decide)
      · rfl
    refine .tail (b := synthesizeTask) (.single ⟨?_, ?_, ?_, ?_⟩) ⟨?_, ?_, ?_, ?_⟩
      <;> decide +kernel

/-- The graph of the template. -/
theorem taint_flows_template :
    (executeGraph calmEnv (fun _ => some 2) (fun _ _ => .ok ⟨true, []⟩) (fun _ => [])
      (templateDag briefIntent) bareProvider).2.calls.Pairwise
        fun x y => ¬ Leak (templateDag briefIntent) x y := by
  refine taint_flows fun ordered h => ?_
  obtain rfl := Except.ok.inj ((show (templateDag briefIntent).order (fun _ => [])
    = .ok [researchTask briefIntent, synthesizeTask, writeTask] from rfl).symm.trans h)
  exact guarded_template

/-- A task that searches and then writes. -/
def digestTask : Task :=
  ⟨lit "digest", lit "write what the vault says", none, [], [lit "read_vault", lit "write_file"],
    [lit "search_query", lit "vault_write"], [], lit "none", lit "retry:2"⟩

def digestGraph : TaskGraph := ⟨lit "digest", [digestTask], lit "llm"⟩

/-- The second call of the task is not stopped by what the first one read. -/
theorem not_taint_flows : ¬ ∀ (graph : TaskGraph) (env : Nat → CallEnv) (int : Str → Option Int)
    (verify : Task → Outputs → Except PyError Receipt) (repr : List Str → Str)
    (provider : SafeProvider),
    (executeGraph env int verify repr graph provider).2.calls.Pairwise fun x y =>
        ¬ Leak graph x y := by
  intro hall
  have hpair := hall digestGraph calmEnv (fun _ => some 2) (fun _ _ => .ok ⟨true, []⟩) (fun _ => [])
    bareProvider
  have hcalls : (executeGraph calmEnv (fun _ => some 2) (fun _ _ => .ok ⟨true, []⟩) (fun _ => [])
      digestGraph bareProvider).2.calls
      = [⟨bareProvider, calmEnv 0, lit "search_query", digestTask⟩,
          ⟨⟨[], none, [lit "digest"]⟩, calmEnv 1, lit "vault_write", digestTask⟩] := rfl
  rw [hcalls, List.pairwise_pair] at hpair
  refine hpair ⟨?_, by decide, ?_, by decide, by decide, Or.inl rfl⟩
  · show (decideGate _ _).action = .safe
    decide +kernel
  · show (decideGate _ _).action = .safe
    decide +kernel

end Agent
