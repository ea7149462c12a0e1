import Msb.Agent.TaskGraph

/-!
# The order of a task graph

What `TaskGraph.order` promises: parents first, and among the orders with parents first the least
one by the ids. Where no id stands twice, a round of the loop takes the least id whose parent has
been taken, so the ready list and the indegrees are what they are called.

* `Kahn.Exact.step` — one round keeps the ready list and the indegrees exact
* `le_of_greedy` — taking the least at every place gives the least list
* `order_spec` — the order, and when there is none
-/

namespace Agent

open Py

/-! ## Greedy lists -/

section Greedy

variable {κ : Type*} [LinearOrder κ] {Free : List κ → κ → Prop} {xs ys before : List κ}

/-- Every entry is free after those before it. -/
def Legal (Free : List κ → κ → Prop) (before xs : List κ) : Prop :=
  ∀ front a back, xs = front ++ a :: back → Free (before ++ front) a

/-- Every entry is the least one that is free after those before it. -/
def Greedy (Free : List κ → κ → Prop) (before xs : List κ) : Prop :=
  ∀ front a back, xs = front ++ a :: back → Free (before ++ front) a ∧
    ∀ b, Free (before ++ front) b → a ≤ b

omit [LinearOrder κ] in
theorem Legal.tail {a : κ} (h : Legal Free before (a :: xs)) : Legal Free (before ++ [a]) xs := by
  intro front b back heq
  have := h (a :: front) b back (by rw [heq]; rfl)
  rwa [List.append_assoc]

theorem Greedy.tail {a : κ} (h : Greedy Free before (a :: xs)) :
    Greedy Free (before ++ [a]) xs := by
  intro front b back heq
  have := h (a :: front) b back (by rw [heq]; rfl)
  rwa [List.append_assoc]

theorem Greedy.concat {a : κ} (h : Greedy Free [] xs) (hfree : Free xs a)
    (hleast : ∀ b, Free xs b → a ≤ b) : Greedy Free [] (xs ++ [a]) := by
  intro front b back heq
  rcases List.eq_nil_or_concat back with rfl | ⟨back, c, rfl⟩
  · obtain ⟨rfl, hb⟩ := List.append_inj' heq rfl
    obtain rfl := List.singleton_inj.mp hb
    exact ⟨hfree, hleast⟩
  · rw [List.concat_eq_append, ← List.cons_append, ← List.append_assoc] at heq
    obtain ⟨hxs, -⟩ := List.append_inj' heq rfl
    exact h front b back hxs

/-- **Taking the least at every place gives the least list.** -/
theorem le_of_greedy (hxs : Greedy Free before xs) (hys : Legal Free before ys)
    (hlen : xs.length ≤ ys.length) : xs ≤ ys := by
  induction xs generalizing before ys with
  | nil =>
    cases ys with
    | nil => exact le_refl _
    | cons b ys => exact le_of_lt (show [] < b :: ys from List.Lex.nil)
  | cons a xs ih =>
    cases ys with
    | nil => simp at hlen
    | cons b ys =>
      have hb : Free before b := by simpa using hys [] b ys rfl
      have hab : a ≤ b := (hxs [] a xs rfl).2 b (by simpa using hb)
      rcases hab.lt_or_eq with hlt | rfl
      · exact le_of_lt (show a :: xs < b :: ys from List.Lex.rel hlt)
      · rcases (ih hxs.tail hys.tail (by simpa using hlen)).lt_or_eq with hlt | rfl
        · exact le_of_lt (show a :: xs < a :: ys from List.Lex.cons hlt)
        · exact le_refl _

end Greedy

/-! ## What an order is -/

namespace TaskGraph

variable (graph : TaskGraph)

/-- The task of `a` names `b`, which is a task of the graph. -/
def Parent (a b : Str) : Prop := ∃ t ∈ graph.tasks, t.taskId = a ∧ t.parentId = some b ∧
    b ∈ graph.ids

/-- A task is its own ancestor. -/
def Cyclic : Prop := ∃ id, Relation.TransGen graph.Parent id id

/-- Every task stands after its parent. -/
def ParentsFirst (order : List Task) : Prop :=
  ∀ before t after, order = before ++ t :: after → ∀ p ∈ t.parentId, p ∈ graph.ids →
    p ∈ before.map Task.taskId

/-- The tasks in an order with parents first. -/
structure IsOrder (order : List Task) : Prop where
  perm : order.Perm graph.tasks
  parents : graph.ParentsFirst order

/-- An id that may be taken next: its parent has been taken, if that is a task of the graph. -/
structure Available (taken : List Str) (id : Str) : Prop where
  known : id ∈ graph.ids
  new : id ∉ taken
  parent : ∀ p, graph.Parent id p → p ∈ taken

variable {graph}

theorem IsOrder.admissible (hnd : graph.ids.Nodup) {order : List Task} (h : graph.IsOrder order) :
    Legal graph.Available [] (order.map Task.taskId) := by
  intro front a back heq
  obtain ⟨before, rest, horder, hfront, hrest⟩ := List.map_eq_append_iff.mp heq
  obtain ⟨t, after, rfl, rfl, -⟩ := List.map_eq_cons_iff.mp hrest
  have hmem : t ∈ graph.tasks := h.perm.mem_iff.mp (by rw [horder]; simp)
  have hunique : (order.map Task.taskId).Nodup := ((h.perm.map _).nodup_iff).mpr hnd
  refine ⟨List.mem_map_of_mem hmem, ?_, ?_⟩
  · rw [heq, List.nodup_append] at hunique
    intro hin
    exact hunique.2.2 t.taskId hin t.taskId List.mem_cons_self rfl
  · rintro p ⟨u, hu, hid, hparent, hknown⟩
    obtain rfl := List.inj_on_of_nodup_map hnd hu hmem hid
    show p ∈ front
    rw [← hfront]
    exact h.parents before u after horder p hparent hknown

/-! ## The ready list and the indegrees -/

/-- The local variables are what they are called, for the tasks taken so far. -/
structure Kahn.Exact (graph : TaskGraph) (k : Kahn) : Prop where
  ready : ∀ id, id ∈ k.ready ↔ graph.Available (k.ordered.map Task.taskId) id
  sorted : k.ready.Pairwise (· ≤ ·)
  waits : ∀ id p, graph.Parent id p → p ∉ k.ordered.map Task.taskId → k.indegree id = 1
  closed : ∀ id ∈ k.ordered.map Task.taskId, ∀ p, graph.Parent id p → p ∈ k.ordered.map Task.taskId
  greedy : Greedy graph.Available [] (k.ordered.map Task.taskId)

theorem sortIds_sorted (ids : List Str) : (sortIds ids).Pairwise (· ≤ ·) :=
  List.pairwise_insertionSort _ _

/-- A task has one parent. -/
theorem Parent.unique (hnd : graph.ids.Nodup) {a b c : Str} (hb : graph.Parent a b)
    (hc : graph.Parent a c) : b = c := by
  obtain ⟨t, ht, hta, htb, -⟩ := hb
  obtain ⟨u, hu, hua, huc, -⟩ := hc
  obtain rfl := List.inj_on_of_nodup_map hnd ht hu (hta.trans hua.symm)
  exact Option.some.inj (htb.symm.trans huc)

theorem indegree_eq_zero {id : Str} : graph.indegree id = 0 ↔ ∀ p, ¬ graph.Parent id p := by
  rw [indegree, Int.natCast_eq_zero, List.length_eq_zero_iff, List.filter_eq_nil_iff]
  constructor
  · rintro h p ⟨t, ht, hid, hparent, hknown⟩
    exact h t ht (decide_eq_true ⟨hid, p, hparent, hknown⟩)
  · intro h t ht hcond
    obtain ⟨hid, p, hparent, hknown⟩ := of_decide_eq_true hcond
    exact h p ⟨t, ht, hid, hparent, hknown⟩

theorem indegree_eq_one (hnd : graph.ids.Nodup) {id p : Str} (h : graph.Parent id p) :
    graph.indegree id = 1 := by
  obtain ⟨t, ht, rfl, hparent, hknown⟩ := h
  have hnodup := (hnd.of_map (f := Task.taskId)).filter fun u => u.taskId = t.taskId ∧
    ∃ q ∈ u.parentId, q ∈ graph.ids
  have hperm : (graph.tasks.filter fun u => u.taskId = t.taskId ∧ ∃ q ∈ u.parentId,
      q ∈ graph.ids).Perm [t] := by
    refine (List.perm_ext_iff_of_nodup hnodup (List.nodup_singleton t)).mpr fun u => ?_
    rw [List.mem_filter, List.mem_singleton, decide_eq_true_eq]
    constructor
    · rintro ⟨hu, hid, -⟩
      exact List.inj_on_of_nodup_map hnd hu ht hid
    · rintro rfl
      exact ⟨ht, rfl, p, hparent, hknown⟩
  rw [indegree, hperm.length_eq]
  rfl

theorem kahnInit_exact (hnd : graph.ids.Nodup) : graph.kahnInit.Exact graph where
  ready := by
    intro id
    rw [kahnInit, mem_sortIds, List.mem_filter, List.mem_dedup, decide_eq_true_eq, indegree_eq_zero]
    constructor
    · rintro ⟨hknown, hnone⟩
      exact ⟨hknown, List.not_mem_nil, fun p hp => absurd hp (hnone p)⟩
    · intro h
      exact ⟨h.known, fun p hp => absurd (h.parent p hp) List.not_mem_nil⟩
  sorted := sortIds_sorted _
  waits id p hp _ := indegree_eq_one hnd hp
  closed id hid := absurd hid List.not_mem_nil
  greedy front a back heq := by simp [kahnInit] at heq

/-- The children that waited for one parent are made ready. -/
theorem foldl_release_exact {children : List Task} (hnd : (children.map Task.taskId).Nodup)
    {k : Kahn}
    (hone : ∀ c ∈ children, k.indegree c.taskId = 1) (hsorted : k.ready.Pairwise (· ≤ ·)) :
    (∀ id, id ∈ (children.foldl Kahn.release k).ready ↔ id ∈ k.ready ∨
      id ∈ children.map Task.taskId) ∧ (children.foldl Kahn.release k).ready.Pairwise (· ≤ ·) ∧
      ∀ id, id ∉ children.map Task.taskId → (children.foldl Kahn.release k).indegree id =
          k.indegree id := by
  induction children generalizing k with
  | nil => exact ⟨by simp, hsorted, fun _ _ => rfl⟩
  | cons c children ih =>
    obtain ⟨hnew, hnd⟩ := List.nodup_cons.mp hnd
    have hdegree : k.indegree c.taskId - 1 = 0 := by
      rw [hone c List.mem_cons_self]
      rfl
    have hready : (k.release c).ready = sortIds (k.ready ++ [c.taskId]) := if_pos hdegree
    have hother : ∀ id, id ≠ c.taskId → (k.release c).indegree id = k.indegree id := fun id hid =>
      Function.update_of_ne hid _ _
    have hrest : ∀ d ∈ children, (k.release c).indegree d.taskId = 1 := by
      intro d hd
      have hne : d.taskId ≠ c.taskId := by
        rintro heq
        exact hnew (heq ▸ List.mem_map_of_mem hd)
      rw [hother _ hne]
      exact hone d (List.mem_cons_of_mem _ hd)
    obtain ⟨hmem, hsort, hsame⟩ := ih hnd hrest (by rw [hready]; exact sortIds_sorted _)
    refine ⟨fun id => ?_, hsort, fun id hid => ?_⟩
    · rw [List.foldl_cons, hmem, hready, mem_sortIds, List.mem_append, List.mem_singleton,
        List.map_cons, List.mem_cons, or_assoc]
    · rw [List.map_cons, List.mem_cons, not_or] at hid
      rw [List.foldl_cons, hsame id hid.2, hother id hid.1]

theorem mem_childrenOf {a b : Str} (h : b ∈ graph.ids) :
    a ∈ (graph.childrenOf b).map Task.taskId ↔ graph.Parent a b := by
  rw [childrenOf, List.mem_map]
  simp only [List.mem_filter, decide_eq_true_eq, Parent]
  constructor
  · rintro ⟨t, ⟨ht, hparent⟩, rfl⟩
    exact ⟨t, ht, rfl, hparent, h⟩
  · rintro ⟨t, ht, rfl, hparent, -⟩
    exact ⟨t, ⟨ht, hparent⟩, rfl⟩

/-- What may be taken after one more id: what could be taken before, and the children of that one.
-/
theorem available_concat (hnd : graph.ids.Nodup) {taken : List Str} {x : Str}
    (hx : graph.Available taken x)
    (hclosed : ∀ id ∈ taken, ∀ p, graph.Parent id p → p ∈ taken) (a : Str) :
    graph.Available (taken ++ [x]) a ↔ (graph.Available taken a ∧ a ≠ x) ∨ graph.Parent a x := by
  constructor
  · intro h
    have hnew := h.new
    rw [List.mem_append, List.mem_singleton, not_or] at hnew
    by_cases hp : graph.Parent a x
    · exact .inr hp
    · refine .inl ⟨⟨h.known, hnew.1, fun p hparent => ?_⟩, hnew.2⟩
      rcases List.mem_append.mp (h.parent p hparent) with htaken | heq
      · exact htaken
      · rw [List.mem_singleton.mp heq] at hparent
        exact absurd hparent hp
  · rintro (⟨h, hne⟩ | hp)
    · refine ⟨h.known, ?_, fun p hparent => List.mem_append_left _ (h.parent p hparent)⟩
      rw [List.mem_append, List.mem_singleton, not_or]
      exact ⟨h.new, hne⟩
    · have hknown : a ∈ graph.ids := by
        obtain ⟨t, ht, rfl, -, -⟩ := hp
        exact List.mem_map_of_mem ht
      refine ⟨hknown, ?_, fun p hparent => ?_⟩
      · -- what was taken does not wait, and nothing is its own parent
        rw [List.mem_append, List.mem_singleton, not_or]
        constructor
        · intro htaken
          exact hx.new (hclosed _ htaken x hp)
        · intro heq
          rw [heq] at hp
          exact hx.new (hx.parent x hp)
      · rw [Parent.unique hnd hparent hp]
        simp

/-- **One round keeps the ready list and the indegrees exact.** -/
theorem Kahn.Exact.step (hnd : graph.ids.Nodup) {k : Kahn} (hsound : k.Sound graph)
    (h : k.Exact graph) : (graph.kahnStep k).Exact graph := by
  unfold kahnStep
  split
  · exact h
  next x ready hready =>
  have hx : graph.Available (k.ordered.map Task.taskId) x :=
    (h.ready x).mp (by rw [hready]; exact List.mem_cons_self)
  obtain ⟨task, htask⟩ := byId_isSome hx.known
  obtain ⟨hmem, rfl⟩ := byId_eq_some htask
  simp only [htask]
  have hperm := List.perm_insertionSort (fun s t : Task => s.taskId ≤ t.taskId)
    (graph.childrenOf task.taskId)
  have hchild : ∀ a,
    a ∈ ((graph.childrenOf task.taskId).insertionSort fun s t => s.taskId ≤ t.taskId).map
    Task.taskId ↔ graph.Parent a task.taskId := by
    intro a
    rw [(hperm.map _).mem_iff]
    exact mem_childrenOf hx.known
  have hchildren :
    (((graph.childrenOf task.taskId).insertionSort fun s t => s.taskId ≤ t.taskId).map
      Task.taskId).Nodup := by
    rw [(hperm.map _).nodup_iff]
    exact hnd.sublist (List.filter_sublist.map _)
  -- a child waits for this task alone
  have hone : ∀ c ∈ (graph.childrenOf task.taskId).insertionSort fun s t => s.taskId ≤ t.taskId,
      k.indegree c.taskId = 1 := fun c hc =>
    h.waits c.taskId task.taskId ((hchild _).mp (List.mem_map_of_mem hc)) hx.new
  have hsorted : ready.Pairwise (· ≤ ·) ∧ ∀ a ∈ ready, task.taskId ≤ a := by
    have := h.sorted
    rw [hready, List.pairwise_cons] at this
    exact ⟨this.2, this.1⟩
  obtain ⟨hmem', hsort, hsame⟩ := foldl_release_exact
    (k := { k with ready, ordered := k.ordered ++ [task] }) hchildren hone hsorted.1
  have hready' : ∀ a, a ∈ ready ↔ graph.Available (k.ordered.map Task.taskId) a ∧
      a ≠ task.taskId := by
    intro a
    have hnodup : (task.taskId :: ready).Nodup := by
      rw [← hready]
      exact (List.nodup_append.mp hsound.nodup).2.1
    rw [← h.ready, hready, List.mem_cons]
    constructor
    · intro ha
      refine ⟨.inr ha, ?_⟩
      rintro rfl
      exact (List.nodup_cons.mp hnodup).1 ha
    · rintro ⟨heq | ha, hne⟩
      · exact absurd heq hne
      · exact ha
  have htaken : ((List.foldl Kahn.release { k with ready, ordered := k.ordered ++ [task] }
      ((graph.childrenOf task.taskId).insertionSort fun s t => s.taskId ≤ t.taskId)).ordered).map
      Task.taskId = k.ordered.map Task.taskId ++ [task.taskId] := by
    rw [foldl_release_ordered, List.map_append]
    rfl
  refine ⟨fun a => ?_, hsort, fun a p hp hnew => ?_, fun a ha p hp => ?_, ?_⟩
  · rw [htaken, available_concat hnd hx h.closed, hmem', hchild, hready']
  · rw [htaken, List.mem_append, List.mem_singleton, not_or] at hnew
    rw [hsame a fun hc => hnew.2 (Parent.unique hnd hp ((hchild a).mp hc))]
    exact h.waits a p hp hnew.1
  · rw [htaken, List.mem_append, List.mem_singleton] at ha ⊢
    rcases ha with ha | rfl
    · exact .inl (h.closed a ha p hp)
    · exact .inl (hx.parent p hp)
  · rw [htaken]
    refine h.greedy.concat hx fun b hb => ?_
    by_cases heq : b = task.taskId
    · exact heq.ge
    · exact hsorted.2 b ((hready' b).mpr ⟨hb, heq⟩)

theorem kahn_exact (hnd : graph.ids.Nodup) : graph.kahn.Exact graph := by
  have hiter : ∀ n, ((graph.kahnStep)^[n] graph.kahnInit).Exact graph := by
    intro n
    induction n with
    | zero => exact kahnInit_exact hnd
    | succ n ih =>
      rw [Function.iterate_succ_apply']
      exact ih.step hnd (iterate_sound n).1
  exact hiter _

/-! ## What the order is -/

/-- What the loop takes has its parents before it. -/
theorem parentsFirst_kahn (hnd : graph.ids.Nodup) : graph.ParentsFirst graph.kahn.ordered := by
  intro before t after heq p hparent hknown
  have hgreedy := (kahn_exact hnd).greedy (before.map Task.taskId) t.taskId (after.map Task.taskId)
    (by rw [heq, List.map_append, List.map_cons])
  have hmem : t ∈ graph.tasks := (kahn_sound graph).taken t (by rw [heq]; simp)
  exact hgreedy.1.parent p ⟨t, hmem, rfl, hparent, hknown⟩

/-- A graph with parents first has no cycle. -/
theorem IsOrder.acyclic (hnd : graph.ids.Nodup) {order : List Task} (h : graph.IsOrder order) :
    ¬ graph.Cyclic := by
  have hunique : (order.map Task.taskId).Nodup := ((h.perm.map _).nodup_iff).mpr hnd
  have hlt : ∀ a b, graph.Parent a b → (order.map Task.taskId).idxOf b <
      (order.map Task.taskId).idxOf a := by
    rintro a b ⟨t, ht, rfl, hparent, hknown⟩
    obtain ⟨before, after, rfl⟩ := List.append_of_mem (h.perm.mem_iff.mpr ht)
    have hb := h.parents before t after rfl b hparent hknown
    rw [List.map_append, List.map_cons] at hunique ⊢
    have ht' : t.taskId ∉ before.map Task.taskId := fun hin =>
      (List.nodup_append.mp hunique).2.2 t.taskId hin t.taskId List.mem_cons_self rfl
    rw [List.idxOf_append_of_mem hb, List.idxOf_append_of_notMem ht', List.idxOf_cons_self]
    exact (List.idxOf_lt_length_iff.mpr hb).trans_le (Nat.le_add_right _ _)
  rintro ⟨a, hcycle⟩
  have hless : ∀ b, Relation.TransGen graph.Parent a b →
      (order.map Task.taskId).idxOf b < (order.map Task.taskId).idxOf a := by
    intro b hb
    induction hb with
    | single hab => exact hlt _ _ hab
    | tail _ hbc ih => exact (hlt _ _ hbc).trans ih
  exact lt_irrefl _ (hless a hcycle)

/-- **Where there is no cycle, every task is taken**: what is left would have its parent among what
is left. -/
theorem kahn_complete (hnd : graph.ids.Nodup) (hacyclic : ¬ graph.Cyclic) :
    graph.kahn.ordered.length = graph.tasks.length := by
  have hexact := kahn_exact hnd
  let above : {a // a ∈ graph.ids} → {a // a ∈ graph.ids} → Prop :=
    fun a b => Relation.TransGen graph.Parent b.1 a.1
  have htrans : IsTrans _ above := ⟨fun a b c hab hbc => hbc.trans hab⟩
  have hirrefl : Std.Irrefl above := ⟨fun a haa => hacyclic ⟨a.1, haa⟩⟩
  have hwf : WellFounded above := Finite.wellFounded_of_trans_of_irrefl above
  have hall : ∀ a : {a // a ∈ graph.ids}, a.1 ∈ graph.kahn.ordered.map Task.taskId := by
    intro a
    induction a using hwf.induction with
    | _ a ih =>
      by_contra hnew
      have havailable : graph.Available (graph.kahn.ordered.map Task.taskId) a.1 := by
        refine ⟨a.2, hnew, fun p hp => ?_⟩
        obtain ⟨_, _, _, _, hknown⟩ := id hp
        exact ih ⟨p, hknown⟩ (.single hp)
      -- no id is ready when the loop is over
      have hready := (hexact.ready a.1).mpr havailable
      rw [kahn_done] at hready
      cases hready
  have hle : graph.ids.length ≤ (graph.kahn.ordered.map Task.taskId).length :=
    (hnd.subperm fun a ha => hall ⟨a, ha⟩).length_le
  have hge : graph.kahn.ordered.length ≤ graph.tasks.length :=
    ((List.nodup_append.mp (kahn_sound graph).nodup).1.of_map.subperm
      (kahn_sound graph).taken).length_le
  rw [ids, List.length_map, List.length_map] at hle
  omega

/-- The order of a graph, and whether it raises. -/
theorem order_eq (graph : TaskGraph) (repr : List Str → Str) :
    (graph.kahn.ordered.length = graph.tasks.length ∧ graph.order repr = .ok graph.kahn.ordered) ∨
      graph.kahn.ordered.length ≠ graph.tasks.length ∧ ∃ message,
      graph.order repr = .error (.valueError message) := by
  unfold order
  by_cases hlen : graph.kahn.ordered.length = graph.tasks.length
  · exact .inl ⟨hlen, by simp [raiseIf, hlen, bind, Except.bind]⟩
  · exact .inr ⟨hlen, _, by simp only [raiseIf, hlen, ne_eq, not_false_eq_true, if_true]; rfl⟩

/-- **The order of a task graph.** The loop ends. It returns the tasks in the order that is the
least by the ids among those with parents first, or it raises a `ValueError`; and it raises where
the parents have a cycle or an id stands twice. -/
theorem order_spec (graph : TaskGraph) (repr : List Str → Str) :
    graph.kahn.ready = [] ∧
    ((∃ order, graph.order repr = .ok order ∧ graph.IsOrder order ∧
        ∀ other, graph.IsOrder other → order.map Task.taskId ≤ other.map Task.taskId) ∨
      ∃ message, graph.order repr = .error (.valueError message)) ∧
    ((∃ e, graph.order repr = .error e) ↔ graph.Cyclic ∨ ¬ graph.ids.Nodup) := by
  refine ⟨kahn_done graph, ?_⟩
  rcases order_eq graph repr with ⟨hlen, hok⟩ | ⟨hlen, message, herror⟩
  · obtain ⟨hunique, hmem⟩ := nodup_of_order hok
    have hperm : graph.kahn.ordered.Perm graph.tasks :=
      (hunique.of_map.subperm (kahn_sound graph).taken).perm_of_length_le hlen.ge
    have hnd : graph.ids.Nodup := ((hperm.map Task.taskId).nodup_iff).mp hunique
    have horder : graph.IsOrder graph.kahn.ordered := ⟨hperm, parentsFirst_kahn hnd⟩
    refine ⟨.inl ⟨_, hok, horder, fun other hother => ?_⟩, ?_⟩
    · refine le_of_greedy (kahn_exact hnd).greedy (hother.admissible hnd) ?_
      rw [List.length_map, List.length_map, hperm.length_eq, hother.perm.length_eq]
    · refine iff_of_false ?_ ?_
      · rintro ⟨e, herror⟩
        rw [hok] at herror
        cases herror
      · rintro (hcycle | hdup)
        · exact horder.acyclic hnd hcycle
        · exact hdup hnd
  · refine ⟨.inr ⟨message, herror⟩, iff_of_true ⟨_, herror⟩ ?_⟩
    by_contra hnot
    rw [not_or, not_not] at hnot
    exact hlen (kahn_complete hnot.2 hnot.1)

end TaskGraph

end Agent
