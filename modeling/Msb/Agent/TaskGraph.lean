import Msb.Agent.Gate

/-!
# The task graph

`agent/dag.py`: tasks with their parents, and the order in which they run. The order is the one of
Kahn's algorithm, with the ready tasks taken by their ids.

* `kahn_done` — the loop is over when as many tasks have been taken as there are
* `nodup_of_order` — a graph that has an order has no id twice
-/

namespace Agent

open Py

structure TaskGraph where
  goal : Str
  tasks : List Task
  source : Str
  deriving DecidableEq

namespace TaskGraph

variable (graph : TaskGraph)

def ids : List Str := graph.tasks.map Task.taskId

/-- `by_id` -/
def byId (taskId : Str) : Option Task := graph.tasks.find? fun t => t.taskId = taskId

/-- `children_of` -/
def childrenOf (taskId : Str) : List Task := graph.tasks.filter fun t => t.parentId = some taskId

/-- The local variables of `order`. -/
structure Kahn where
  indegree : Str → Int
  ready : List Str
  ordered : List Task

/-- `sorted(ids)` -/
def sortIds (ids : List Str) : List Str := ids.insertionSort (· ≤ ·)

/-- The tasks of an id that have their parent in the graph. -/
def indegree (taskId : Str) : Int :=
  (graph.tasks.filter fun t => t.taskId = taskId ∧ ∃ p ∈ t.parentId, p ∈ graph.ids).length

def kahnInit : Kahn where
  indegree := graph.indegree
  ready := sortIds (graph.ids.dedup.filter fun id => graph.indegree id = 0)
  ordered := []

/-- One child of the task that was taken. -/
def Kahn.release (k : Kahn) (child : Task) : Kahn :=
  let degree := k.indegree child.taskId - 1
  { k with
    indegree := Function.update k.indegree child.taskId degree
    ready := if degree = 0 then sortIds (k.ready ++ [child.taskId]) else k.ready }

/-- One round of the loop. A loop that is over stays as it is. -/
def kahnStep (k : Kahn) : Kahn :=
  match k.ready with
  | [] => k
  | taskId :: ready =>
    match graph.byId taskId with
    | none => { k with ready }
    | some task =>
      ((graph.childrenOf taskId).insertionSort fun s t => s.taskId ≤ t.taskId).foldl Kahn.release
        { k with ready, ordered := k.ordered ++ [task] }

/-- The loop takes each task at most once, so it is over after as many rounds as there are tasks. -/
def kahn : Kahn := (graph.kahnStep)^[graph.tasks.length] graph.kahnInit

/-- `order`. `repr` is the text of a list of ids. -/
def order (repr : List Str → Str) : Except PyError (List Task) := do
  let ordered := graph.kahn.ordered
  raiseIf (ordered.length ≠ graph.tasks.length) (.valueError (lit "task graph contains a cycle: " ++
    repr (sortIds (graph.ids.dedup.filter fun id => id ∉ ordered.map Task.taskId))))
  .ok ordered

/-- `is_acyclic` -/
def isAcyclic : Bool := graph.kahn.ordered.length = graph.tasks.length

/-! ## What the loop keeps -/

variable {graph}

/-- What holds in every round: the ids taken and the ids ready are different ids of the graph, and
none of them waits for a parent. -/
structure Kahn.Sound (graph : TaskGraph) (k : Kahn) : Prop where
  nodup : (k.ordered.map Task.taskId ++ k.ready).Nodup
  known : ∀ id ∈ k.ready, id ∈ graph.ids
  taken : ∀ t ∈ k.ordered, t ∈ graph.tasks
  free : ∀ id ∈ k.ordered.map Task.taskId ++ k.ready, k.indegree id ≤ 0

theorem sortIds_perm (ids : List Str) : (sortIds ids).Perm ids := List.perm_insertionSort _ ids

theorem mem_sortIds {ids : List Str} {id : Str} : id ∈ sortIds ids ↔ id ∈ ids :=
  (sortIds_perm ids).mem_iff

variable {taskId : Str} {k : Kahn}

theorem byId_eq_some {task : Task} (h : graph.byId taskId = some task) :
    task ∈ graph.tasks ∧ task.taskId = taskId :=
  ⟨List.mem_of_find?_eq_some h, by simpa using List.find?_some h⟩

theorem kahnInit_sound (graph : TaskGraph) : graph.kahnInit.Sound graph where
  nodup := by
    rw [kahnInit, List.map_nil, List.nil_append, (sortIds_perm _).nodup_iff]
    exact (List.nodup_dedup _).filter _
  known := by
    intro id hid
    rw [kahnInit, mem_sortIds, List.mem_filter, List.mem_dedup] at hid
    exact hid.1
  taken := by simp [kahnInit]
  free := by
    intro id hid
    rw [kahnInit, List.map_nil, List.nil_append, mem_sortIds, List.mem_filter] at hid
    exact (of_decide_eq_true hid.2).le

/-- A child is made ready when it waited for one parent more, so it was not ready before. -/
theorem Kahn.Sound.release (h : k.Sound graph) {child : Task} (hchild : child ∈ graph.tasks) :
    (k.release child).Sound graph := by
  by_cases hdegree : k.indegree child.taskId - 1 = 0
  · have hready : (k.release child).ready.Perm (k.ready ++ [child.taskId]) := by
      rw [Kahn.release, if_pos hdegree]
      exact sortIds_perm _
    -- what is ready or ordered waits for nothing, and the child waited for one task
    have hnew : child.taskId ∉ k.ordered.map Task.taskId ++ k.ready := by
      intro hmem
      have hfree := h.free child.taskId hmem
      omega
    have hall : ((k.release child).ordered.map Task.taskId ++ (k.release child).ready).Perm
        ((k.ordered.map Task.taskId ++ k.ready) ++ [child.taskId]) := by
      rw [List.append_assoc]
      exact hready.append_left _
    refine ⟨?_, ?_, h.taken, ?_⟩
    · rw [hall.nodup_iff, List.nodup_append]
      exact ⟨h.nodup, List.nodup_singleton _, fun a ha b hb hab =>
        hnew ((List.mem_singleton.mp hb).symm.trans hab.symm ▸ ha)⟩
    · intro id hid
      rw [hready.mem_iff, List.mem_append, List.mem_singleton] at hid
      rcases hid with hid | rfl
      · exact h.known id hid
      · exact List.mem_map_of_mem hchild
    · intro id hid
      rw [hall.mem_iff, List.mem_append, List.mem_singleton] at hid
      show Function.update k.indegree child.taskId _ id ≤ 0
      rcases hid with hid | rfl
      · have hne : id ≠ child.taskId := by
          rintro rfl
          exact hnew hid
        rw [Function.update_of_ne hne]
        exact h.free id hid
      · rw [Function.update_self]
        exact hdegree.le
  · have hready : (k.release child).ready = k.ready := by
      rw [Kahn.release, if_neg hdegree]
    refine ⟨by rw [hready]; exact h.nodup, by rw [hready]; exact h.known, h.taken, ?_⟩
    rw [hready]
    intro id hid
    show Function.update k.indegree child.taskId _ id ≤ 0
    have hfree := h.free id hid
    by_cases heq : id = child.taskId
    · subst heq
      rw [Function.update_self]
      omega
    · rw [Function.update_of_ne heq]
      exact hfree

theorem Kahn.Sound.foldl_release {children : List Task}
    (hchildren : ∀ t ∈ children, t ∈ graph.tasks) :
    ∀ {k : Kahn}, k.Sound graph → (children.foldl Kahn.release k).Sound graph := by
  induction children with
  | nil => exact fun h => h
  | cons child children ih =>
    intro k h
    obtain ⟨hchild, htail⟩ := List.forall_mem_cons.mp hchildren
    exact ih htail (h.release hchild)

theorem foldl_release_ordered {children : List Task} :
    ∀ {k : Kahn}, (children.foldl Kahn.release k).ordered = k.ordered := by
  induction children with
  | nil => exact rfl
  | cons child children ih => exact ih

/-- The id at the head of the queue moves to the tasks taken. -/
theorem Kahn.Sound.take (h : k.Sound graph) {ready : List Str} {task : Task}
    (hready : k.ready = taskId :: ready) (htask : graph.byId taskId = some task) :
    ({ k with ready, ordered := k.ordered ++ [task] } : Kahn).Sound graph := by
  obtain ⟨hmem, rfl⟩ := byId_eq_some htask
  have hall : (k.ordered ++ [task]).map Task.taskId ++ ready = k.ordered.map Task.taskId ++
      k.ready := by
    rw [hready, List.map_append, List.append_assoc]
    rfl
  refine ⟨by rw [hall]; exact h.nodup, fun id hid => h.known id ?_, fun t ht => ?_, ?_⟩
  · rw [hready]
    exact List.mem_cons_of_mem _ hid
  · rcases List.mem_append.mp ht with ht | ht
    · exact h.taken t ht
    · exact List.mem_singleton.mp ht ▸ hmem
  · rw [hall]
    exact h.free

theorem byId_isSome (h : taskId ∈ graph.ids) : ∃ task, graph.byId taskId = some task := by
  obtain ⟨task, htask, rfl⟩ := List.mem_map.mp h
  refine Option.isSome_iff_exists.mp (List.find?_isSome.mpr ⟨task, htask, by simp⟩)

theorem kahnStep_of_done (h : k.ready = []) : graph.kahnStep k = k := by
  unfold kahnStep
  rw [h]

/-- One round takes the first ready task, unless the loop is over. -/
theorem kahnStep_sound (h : k.Sound graph) :
    (graph.kahnStep k).Sound graph ∧
      (k.ready ≠ [] → (graph.kahnStep k).ordered.length = k.ordered.length + 1) := by
  unfold kahnStep
  split
  · next hready => exact ⟨h, fun hne => absurd hready hne⟩
  · next taskId ready hready =>
    obtain ⟨task, htask⟩ := byId_isSome (h.known taskId (by rw [hready]; exact List.mem_cons_self))
    simp only [htask]
    refine ⟨(h.take hready htask).foldl_release fun t ht => ?_, fun _ => ?_⟩
    · rw [(List.perm_insertionSort _ _).mem_iff] at ht
      exact (List.mem_filter.mp ht).1
    · rw [foldl_release_ordered, List.length_append, List.length_singleton]

theorem iterate_sound (n : Nat) : ((graph.kahnStep)^[n] graph.kahnInit).Sound graph ∧
    (((graph.kahnStep)^[n] graph.kahnInit).ready = [] ∨
      ((graph.kahnStep)^[n] graph.kahnInit).ordered.length = n) := by
  induction n with
  | zero => exact ⟨kahnInit_sound graph, Or.inr rfl⟩
  | succ n ih =>
    rw [Function.iterate_succ_apply']
    obtain ⟨hsound, hlen⟩ := ih
    by_cases hready : ((graph.kahnStep)^[n] graph.kahnInit).ready = []
    · rw [kahnStep_of_done hready]
      exact ⟨hsound, Or.inl hready⟩
    · obtain ⟨hnext, hone⟩ := kahnStep_sound hsound
      exact ⟨hnext, Or.inr (by rw [hone hready, hlen.resolve_left hready])⟩

theorem kahn_sound (graph : TaskGraph) : graph.kahn.Sound graph := (iterate_sound _).1

/-- **The loop is over**: no task is ready after as many rounds as there are tasks. -/
theorem kahn_done (graph : TaskGraph) : graph.kahn.ready = [] := by
  have hsound := kahn_sound graph
  refine (iterate_sound graph.tasks.length).2.elim id fun hlen => ?_
  have htaken : graph.kahn.ordered.length = graph.tasks.length := hlen
  have hsub : graph.kahn.ordered.map Task.taskId ++ graph.kahn.ready ⊆ graph.ids := by
    intro id hid
    rcases List.mem_append.mp hid with hid | hid
    · obtain ⟨t, ht, rfl⟩ := List.mem_map.mp hid
      exact List.mem_map_of_mem (hsound.taken t ht)
    · exact hsound.known id hid
  have hle := (hsound.nodup.subperm hsub).length_le
  rw [List.length_append, List.length_map, ids, List.length_map] at hle
  exact List.length_eq_zero_iff.mp (by omega)

theorem order_eq_ok {repr : List Str → Str} {ordered : List Task}
    (h : graph.order repr = .ok ordered) :
    ordered = graph.kahn.ordered ∧ ordered.length = graph.tasks.length := by
  unfold order at h
  obtain ⟨_, hraise, h⟩ := bind_eq_ok.mp h
  have hlen := raiseIf_eq_ok.mp hraise
  obtain rfl := Except.ok.inj h
  exact ⟨rfl, not_not.mp hlen⟩

/-- **A graph that has an order has no id twice**, and the order holds its tasks. -/
theorem nodup_of_order {repr : List Str → Str} {ordered : List Task}
    (h : graph.order repr = .ok ordered) :
    (ordered.map Task.taskId).Nodup ∧ ∀ t, t ∈ ordered ↔ t ∈ graph.tasks := by
  obtain ⟨rfl, hlen⟩ := order_eq_ok h
  have hsound := kahn_sound graph
  have hnodup : (graph.kahn.ordered.map Task.taskId).Nodup := (List.nodup_append.mp hsound.nodup).1
  have hperm : graph.kahn.ordered.Perm graph.tasks :=
    (hnodup.of_map.subperm hsound.taken).perm_of_length_le hlen.ge
  exact ⟨hnodup, fun t => hperm.mem_iff⟩

end TaskGraph

end Agent
