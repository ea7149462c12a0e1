import Msb.Plei.CycleSearch

/-!
# The longest paths

`_critical_path` takes the packages in an order in which every package comes after those that import
it, and finds the longest path to each. `_longest_simple_path` goes along all simple paths from a
package.

* `drain_spec` — the order
* `criticalPath_spec` — the longest path of a graph without cycles
* `extend_spec`, `longest_spec` — the longest simple path
-/

namespace Plei

namespace PackageGraph

open Py Paths

variable {g : PackageGraph}

/-! ## The order -/

/-- How many of the packages that import `n` have not been taken. -/
def waiting (g : PackageGraph) (taken : List Str) (n : Str) : ℕ := g.adj.countP fun p => n ∈ p.2 ∧
    p.1 ∉ taken

/-- The counts and the queue are what they are called, and the order so far is one. -/
structure Exact (g : PackageGraph) (k : Kahn) : Prop where
  degree : ∀ n ∈ g.nodes, k.inDegree n = g.waiting k.topoOrder n
  ready : ∀ n, n ∈ k.topoOrder ++ k.queue ↔ n ∈ g.nodes ∧ g.waiting k.topoOrder n = 0
  nodup : (k.topoOrder ++ k.queue).Nodup
  ordered : ∀ front v back, k.topoOrder = front ++ v :: back → ∀ u, g.Edge u v → u ∈ front

section

variable {taken ws : List Str} {n v : Str} {k : Kahn}

theorem waiting_eq_zero : g.waiting taken n = 0 ↔ ∀ u, n ∈ g.adjOf u → u ∈ taken := by
  unfold waiting
  rw [List.countP_eq_zero]
  simp only [decide_eq_true_eq, not_and, not_not, mem_adjOf]
  constructor
  · rintro h u ⟨p, hp, rfl, hn⟩
    exact h p hp hn
  · exact fun h p hp hn => h p.1 ⟨p, hp, rfl, hn⟩

/-- Taking a package is one less for those that it imports. -/
theorem waiting_concat (hv : v ∉ taken) :
    g.waiting taken n = g.waiting (taken ++ [v]) n + if n ∈ g.adjOf v then 1 else 0 := by
  simp only [mem_adjOf, waiting]
  have hkeys := g.unique_keys
  generalize g.adj = adj at hkeys ⊢
  induction adj with
  | nil => simp
  | cons p adj ih =>
    rw [List.map_cons, List.nodup_cons] at hkeys
    have ih := ih hkeys.2
    rw [List.countP_cons, List.countP_cons, ih]
    by_cases hpv : p.1 = v
    · have hrest : ¬ ∃ q ∈ adj, q.1 = v ∧ n ∈ q.2 :=
        fun ⟨q, hq, hqv, _⟩ => hkeys.1 (hpv ▸ hqv ▸ List.mem_map_of_mem hq)
      rw [if_neg hrest]
      by_cases hn : n ∈ p.2
      · simp [hpv, hn, hv]
      · have hnone : ¬ ∃ q ∈ p :: adj, q.1 = v ∧ n ∈ q.2 := by
          rintro ⟨q, hq, hqv, hnq⟩
          rcases List.mem_cons.mp hq with rfl | hq
          · exact hn hnq
          · exact hrest ⟨q, hq, hqv, hnq⟩
        rw [if_neg hnone]
        simp [hn]
    · have hsame : (∃ q ∈ p :: adj, q.1 = v ∧ n ∈ q.2) ↔ ∃ q ∈ adj, q.1 = v ∧ n ∈ q.2 := by
        simp [hpv]
      simp only [hsame, List.mem_append, List.mem_singleton, hpv, or_false]
      omega

/-- The loop over the packages that `v` imports. -/
theorem foldl_release (hws : ws.Nodup) (k : Kahn) :
    (∀ n, (ws.foldl g.release k).inDegree n = k.inDegree n - if n ∈ ws ∧
      n ∈ g.nodes then 1 else 0) ∧
      (ws.foldl g.release k).queue = k.queue ++ ws.filter
      (fun w => w ∈ g.nodes ∧ k.inDegree w = 1) ∧
      (ws.foldl g.release k).topoOrder = k.topoOrder := by
  induction ws generalizing k with
  | nil => simp
  | cons w ws ih =>
    obtain ⟨hw, hws⟩ := List.nodup_cons.mp hws
    obtain ⟨hdegree, hqueue, horder⟩ := ih hws (g.release k w)
    rw [List.foldl_cons]
    by_cases hnode : w ∈ g.nodes
    · have hrelease : g.release k w = ⟨Function.update k.inDegree w (k.inDegree w - 1),
          if k.inDegree w - 1 = 0 then k.queue ++ [w] else k.queue, k.topoOrder⟩ := by
        rw [release, if_pos hnode]
        simp only [Function.update_self]
      refine ⟨fun n => ?_, ?_, horder.trans (by rw [hrelease])⟩
      · rw [hdegree, hrelease]
        by_cases hnw : n = w
        · subst hnw
          simp [hw, hnode]
        · simp [hnw]
      · have hfilter : ws.filter (fun x => x ∈ g.nodes ∧ (g.release k w).inDegree x = 1) =
            ws.filter (fun x => x ∈ g.nodes ∧ k.inDegree x = 1) := by
          refine List.filter_congr fun x hx => ?_
          have hxw : x ≠ w := fun heq => hw (heq ▸ hx)
          rw [hrelease]
          simp only [Function.update_of_ne hxw]
        rw [hqueue, hfilter, hrelease]
        by_cases hone : k.inDegree w = 1
        · simp [hnode, hone]
        · have hne : k.inDegree w - 1 ≠ 0 := by omega
          simp [hone, hne]
    · have hrelease : g.release k w = k := if_neg hnode
      rw [hrelease] at hdegree hqueue horder ⊢
      refine ⟨fun n => ?_, ?_, horder⟩
      · rw [hdegree]
        by_cases hnw : n = w
        · subst hnw
          simp [hnode]
        · simp [hnw]
      · rw [hqueue]
        simp [hnode]

theorem exact_init : Exact g g.kahnInit := by
  have hdegree : ∀ n, g.kahnInit.inDegree n = g.waiting [] n := fun n => by
    rw [waiting, List.countP_eq_length_filter]
    simp [kahnInit]
  refine ⟨fun n _ => hdegree n, fun n => ?_, ?_, ?_⟩
  · show n ∈ [] ++ g.nodes.filter _ ↔ _
    rw [List.nil_append, List.mem_filter, decide_eq_true_eq]
    refine and_congr_right fun _ => ?_
    show g.kahnInit.inDegree n = 0 ↔ g.waiting [] n = 0
    rw [hdegree]
    exact Nat.cast_eq_zero
  · exact g.nodup_nodes.filter _
  · intro front v back h
    simp [kahnInit] at h

/-- One round of the loop. -/
theorem Exact.step {rest : List Str} (h : Exact g k) (hqueue : k.queue = v :: rest) :
    Exact g ((g.adjOf v).foldl g.release
      { k with queue := rest, topoOrder := k.topoOrder ++ [v] }) := by
  obtain ⟨hdegree, hnext, horder⟩ :=
    foldl_release (g := g) (g.nodup_adjOf v)
    { k with queue := rest, topoOrder := k.topoOrder ++ [v] }
  set k' := (g.adjOf v).foldl g.release { k with queue := rest, topoOrder := k.topoOrder ++ [v] }
    with hk'
  have hnodup : (k.topoOrder ++ v :: rest).Nodup := hqueue ▸ h.nodup
  have hv : v ∉ k.topoOrder :=
    fun hmem => (List.nodup_append.mp hnodup).2.2 v hmem v List.mem_cons_self rfl
  have hready : ∀ n, n ∈ k.topoOrder ++ v :: rest ↔ n ∈ g.nodes ∧ g.waiting k.topoOrder n = 0 :=
    hqueue ▸ h.ready
  have hvready := (hready v).mp (by simp)
  have hmem : ∀ n, n ∈ k'.topoOrder ++ k'.queue ↔
      n ∈ k.topoOrder ++ v :: rest ∨ (n ∈ g.adjOf v ∧ n ∈ g.nodes ∧ k.inDegree n = 1) := by
    intro n
    rw [horder, hnext]
    simp only [List.mem_append, List.mem_filter, decide_eq_true_eq, List.mem_cons,
      List.not_mem_nil, or_false]
    tauto
  refine ⟨fun n hn => ?_, fun n => ?_, ?_, fun front w back hsplit u hu => ?_⟩
  · rw [hdegree, horder]
    show k.inDegree n - _ = _
    rw [h.degree n hn, waiting_concat hv]
    simp [hn]
  · rw [hmem, hready, horder]
    show _ ↔ n ∈ g.nodes ∧ g.waiting (k.topoOrder ++ [v]) n = 0
    have hwaiting := waiting_concat (g := g) (n := n) hv
    constructor
    · rintro (⟨hn, hzero⟩ | ⟨hadj, hn, hone⟩)
      · exact ⟨hn, by omega⟩
      · rw [h.degree n hn, hwaiting, if_pos hadj] at hone
        exact ⟨hn, by omega⟩
    · rintro ⟨hn, hzero⟩
      by_cases hadj : n ∈ g.adjOf v
      · rw [if_pos hadj, hzero] at hwaiting
        exact .inr ⟨hadj, hn, by rw [h.degree n hn, hwaiting]; rfl⟩
      · rw [if_neg hadj, hzero] at hwaiting
        exact .inl ⟨hn, hwaiting⟩
  · rw [horder, hnext]
    show (k.topoOrder ++ [v] ++ (rest ++ _)).Nodup
    rw [← List.append_assoc, List.append_assoc k.topoOrder [v] rest]
    refine List.nodup_append.mpr ⟨hnodup, (g.nodup_adjOf v).filter _, fun n hn m hm heq => ?_⟩
    subst heq
    rw [List.mem_filter, decide_eq_true_eq] at hm
    obtain ⟨-, hnode, hone⟩ := hm
    -- what is new in the queue was still waiting
    have hdeg := h.degree n hnode
    rw [((hready n).mp hn).2, show k.inDegree n = 1 from hone] at hdeg
    cases hdeg
  · rw [horder] at hsplit
    rcases List.eq_nil_or_concat back with rfl | ⟨back, b, rfl⟩
    · obtain ⟨hfront, hw⟩ := List.append_inj' hsplit rfl
      obtain rfl : v = w := by simpa using hw
      exact hfront ▸ waiting_eq_zero.mp hvready.2 u hu.2.2
    · have hbefore : k.topoOrder ++ [v] = (front ++ w :: back) ++ [b] := by simpa using hsplit
      obtain ⟨hfront, -⟩ := List.append_inj' hbefore rfl
      exact h.ordered front w back hfront u hu

/-- The loop ends, and leaves an order of all the packages that can be ordered. -/
theorem drain_spec (m : ℕ) : ∀ k, Exact g k → g.nodes.length ≤ m + k.topoOrder.length →
    ∃ k', Exact g k' ∧ k'.queue = [] ∧ ∀ fuel ≥ m, g.drain fuel k = k' := by
  have hempty : ∀ {k}, k.queue = [] → ∀ fuel, g.drain fuel k = k := by
    intro k hqueue fuel
    cases fuel with
    | zero => rfl
    | succ fuel => rw [drain, hqueue]
  induction m with
  | zero =>
    intro k h hroom
    have hqueue : k.queue = [] := by
      have hle := (h.nodup.subperm fun n hn => ((h.ready n).mp hn).1).length_le
      rw [List.length_append] at hle
      exact List.eq_nil_of_length_eq_zero (by omega)
    exact ⟨k, h, hqueue, fun fuel _ => hempty hqueue fuel⟩
  | succ m ih =>
    intro k h hroom
    cases hqueue : k.queue with
    | nil => exact ⟨k, h, hqueue, fun fuel _ => hempty hqueue fuel⟩
    | cons v rest =>
      have hlength :
        ((g.adjOf v).foldl g.release
          { k with queue := rest, topoOrder := k.topoOrder ++ [v] }).topoOrder.length =
          k.topoOrder.length + 1 := by
        rw [(foldl_release (g.nodup_adjOf v) _).2.2, List.length_append, List.length_singleton]
      obtain ⟨k', h', hdone, hrun⟩ := ih _ (h.step hqueue) (by rw [hlength]; omega)
      refine ⟨k', h', hdone, fun fuel hfuel => ?_⟩
      obtain ⟨fuel, rfl⟩ : ∃ j, fuel = j + 1 := ⟨fuel - 1, by omega⟩
      rw [drain, hqueue]
      exact hrun fuel (by omega)

/-- Where there is no cycle, all packages are ordered. -/
theorem Exact.complete (h : Exact g k) (hqueue : k.queue = []) (hacyclic : Acyclic g.Edge) :
    ∀ n ∈ g.nodes, n ∈ k.topoOrder := by
  by_contra hleft
  have hne : g.nodes.filter (fun n => n ∉ k.topoOrder) ≠ [] := by
    intro hnil
    refine hleft fun n hn => ?_
    by_contra hnot
    exact List.not_mem_nil (hnil ▸ List.mem_filter.mpr ⟨hn, decide_eq_true hnot⟩)
  -- one of those left is imported by none of them, so it has been ready
  obtain ⟨x, hx, hfree⟩ := exists_source hacyclic hne
  obtain ⟨hnode, hnot⟩ := List.mem_filter.mp hx
  have hzero : g.waiting k.topoOrder x = 0 := waiting_eq_zero.mpr fun u hu => by
    by_contra hnew
    have hedge : g.Edge u x := edge_iff.mpr ⟨hnode, hu⟩
    exact hfree u (List.mem_filter.mpr ⟨hedge.1, decide_eq_true hnew⟩) hedge
  have hmem := (h.ready x).mpr ⟨hnode, hzero⟩
  rw [hqueue, List.append_nil] at hmem
  exact of_decide_eq_true hnot hmem

end

/-! ## Longest paths in an order -/

section

variable {done rest ws : List Str} {v w x y : Str} {d : Longest}

/-- The loop over the edges from `v`. -/
theorem foldl_relax (hv : v ∉ ws) (hws : ws.Nodup) (d : Longest) :
    (∀ y, y ∈ ws ∧ y ∈ g.nodes ∧ d.dist v + 1 > d.dist y →
      (ws.foldl (g.relax v) d).dist y = d.dist v + 1 ∧ (ws.foldl (g.relax v) d).prev y = some v) ∧
    ∀ y, ¬ (y ∈ ws ∧ y ∈ g.nodes ∧ d.dist v + 1 > d.dist y) →
      (ws.foldl (g.relax v) d).dist y = d.dist y ∧ (ws.foldl (g.relax v) d).prev y = d.prev y := by
  induction ws generalizing d with
  | nil => simp
  | cons w ws ih =>
    rw [List.mem_cons, not_or] at hv
    obtain ⟨hw, hws⟩ := List.nodup_cons.mp hws
    obtain ⟨hhit, hmiss⟩ := ih hv.2 hws (g.relax v d w)
    have hother : ∀ y, y ≠ w → (g.relax v d w).dist y = d.dist y ∧
        (g.relax v d w).prev y = d.prev y := by
      intro y hy
      unfold relax
      split
      · exact ⟨Function.update_of_ne hy _ _, Function.update_of_ne hy _ _⟩
      · exact ⟨rfl, rfl⟩
    have hdist : (g.relax v d w).dist v = d.dist v := (hother v hv.1).1
    rw [List.foldl_cons]
    refine ⟨fun y hy => ?_, fun y hy => ?_⟩
    · by_cases hyw : y = w
      · subst hyw
        have hrelaxed : (g.relax v d y).dist y = d.dist v + 1 ∧
            (g.relax v d y).prev y = some v := by
          rw [relax, if_pos hy.2]
          exact ⟨Function.update_self .., Function.update_self ..⟩
        obtain ⟨hsame, hprev⟩ := hmiss y fun h => hw h.1
        exact ⟨hsame.trans hrelaxed.1, hprev.trans hrelaxed.2⟩
      · have hmem : y ∈ ws := (List.mem_cons.mp hy.1).resolve_left hyw
        have := hhit y ⟨hmem, hy.2.1, by rw [hdist, (hother y hyw).1]; exact hy.2.2⟩
        rwa [hdist] at this
    · by_cases hyw : y = w
      · subst hyw
        have hkept : g.relax v d y = d := if_neg fun h => hy ⟨List.mem_cons_self, h⟩
        obtain ⟨hsame, hprev⟩ := hmiss y fun h => hw h.1
        rw [hkept] at hsame hprev ⊢
        exact ⟨hsame, hprev⟩
      · obtain ⟨hsame, hprev⟩ := hmiss y fun h => hy ⟨List.mem_cons_of_mem _ h.1, h.2.1, by
          rw [hdist, (hother y hyw).1] at h
          exact h.2.2⟩
        exact ⟨hsame.trans (hother y hyw).1, hprev.trans (hother y hyw).2⟩

/-- The distances are those of paths through what has been taken, and no edge from it leads further.
-/
structure Along (g : PackageGraph) (done : List Str) (d : Longest) : Prop where
  root : ∀ y, d.prev y = none → d.dist y = 0
  step : ∀ y m, d.prev y = some m → g.Edge m y ∧ m ∈ done ∧ d.dist y = d.dist m + 1
  reach : ∀ m ∈ done, ∀ y, g.Edge m y → d.dist m + 1 ≤ d.dist y

/-- One package of the order: what comes before it does not change any more. -/
theorem Along.take (h : Along g done d) (hnode : v ∈ g.nodes) (hself : ¬ g.Edge v v)
    (hback : ∀ m ∈ done, ¬ g.Edge v m) :
    Along g (done ++ [v]) ((g.adjOf v).foldl (g.relax v) d) := by
  have hv : v ∉ g.adjOf v := fun hmem => hself (edge_iff.mpr ⟨hnode, hmem⟩)
  obtain ⟨hhit, hmiss⟩ := foldl_relax (g := g) hv (g.nodup_adjOf v) d
  set d' := (g.adjOf v).foldl (g.relax v) d
  have hkept : ∀ m, m ∈ done ++ [v] → d'.dist m = d.dist m := by
    intro m hm
    refine (hmiss m fun hit => ?_).1
    have hedge : g.Edge v m := edge_iff.mpr ⟨hit.2.1, hit.1⟩
    rcases List.mem_append.mp hm with hm | hm
    · exact hback m hm hedge
    · exact hself (List.mem_singleton.mp hm ▸ hedge)
  have hmono : ∀ y, d.dist y ≤ d'.dist y := by
    intro y
    by_cases hit : y ∈ g.adjOf v ∧ y ∈ g.nodes ∧ d.dist v + 1 > d.dist y
    · rw [(hhit y hit).1]
      exact hit.2.2.le
    · rw [(hmiss y hit).1]
  refine ⟨fun y hy => ?_, fun y m hy => ?_, fun m hm y hedge => ?_⟩
  · by_cases hit : y ∈ g.adjOf v ∧ y ∈ g.nodes ∧ d.dist v + 1 > d.dist y
    · rw [(hhit y hit).2] at hy
      cases hy
    · rw [(hmiss y hit).1]
      exact h.root y ((hmiss y hit).2 ▸ hy)
  · by_cases hit : y ∈ g.adjOf v ∧ y ∈ g.nodes ∧ d.dist v + 1 > d.dist y
    · obtain ⟨hdist, hprev⟩ := hhit y hit
      obtain rfl : v = m := by rw [hprev] at hy; exact Option.some.inj hy
      have hself' : v ∈ done ++ [v] := List.mem_append_right _ List.mem_cons_self
      exact ⟨edge_iff.mpr ⟨hit.2.1, hit.1⟩, hself', by rw [hdist, hkept v hself']⟩
    · obtain ⟨hdist, hprev⟩ := hmiss y hit
      obtain ⟨hedge, hm, hlen⟩ := h.step y m (hprev ▸ hy)
      exact ⟨hedge,
        List.mem_append_left _ hm, by rw [hdist, hkept m (List.mem_append_left _ hm), hlen]⟩
  · rw [hkept m hm]
    rcases List.mem_append.mp hm with hm | hm
    · exact (h.reach m hm y hedge).trans (hmono y)
    · obtain rfl := List.mem_singleton.mp hm
      by_cases hit : y ∈ g.adjOf m ∧ y ∈ g.nodes ∧ d.dist m + 1 > d.dist y
      · rw [(hhit y hit).1]
      · have hle : d.dist m + 1 ≤ d.dist y := by
          by_contra hlt
          exact hit ⟨hedge.2.2, hedge.2.1, by omega⟩
        exact hle.trans (hmono y)

/-- All the packages of an order. -/
theorem along_order {order : List Str} (hnodup : order.Nodup) (hnodes : ∀ n ∈ order, n ∈ g.nodes)
    (hordered : ∀ front v back, order = front ++ v :: back → ∀ u, g.Edge u v → u ∈ front) :
    Along g order (g.longestAlong order) := by
  have hall : ∀ (rest done : List Str) (d : Longest), done ++ rest = order → Along g done d →
      Along g order (rest.foldl (fun d v => (g.adjOf v).foldl (g.relax v) d) d) := by
    intro rest
    induction rest with
    | nil =>
      intro done d hsplit h
      rw [List.append_nil] at hsplit
      rw [List.foldl_nil, ← hsplit]
      exact h
    | cons v rest ih =>
      intro done d hsplit h
      have hv : v ∉ done :=
        fun hmem => (List.nodup_append.mp (hsplit ▸ hnodup)).2.2 v hmem v List.mem_cons_self rfl
      have hfront : ∀ u, g.Edge u v → u ∈ done := hordered done v rest hsplit.symm
      refine ih (done ++ [v]) _ (by simpa using hsplit)
        (h.take (hnodes v (by simp [← hsplit])) (fun hedge => hv (hfront v hedge))
        fun m hm hedge => ?_)
      -- what imports a package of `done` comes before it
      obtain ⟨front, back, rfl⟩ := List.append_of_mem hm
      have hmem := hordered front m (back ++ v :: rest) (by simp [← hsplit]) v hedge
      exact hv (List.mem_append_left _ hmem)
  exact hall order [] _ (List.nil_append _) ⟨fun _ _ => rfl, fun _ _ h => (by cases h), fun _ h =>
    (by cases h)⟩

/-- No path is longer than the distance of its last package. -/
theorem Along.bound {order : List Str} (h : Along g order d) (hall : ∀ n ∈ g.nodes, n ∈ order)
    {p : List Str} {a b : Str}
    (hchain : (a :: p).IsChain g.Edge) (hlast : (a :: p).getLast? = some b) :
    d.dist a + p.length ≤ d.dist b := by
  induction p generalizing a with
  | nil =>
    obtain rfl : a = b := by simpa using hlast
    exact le_rfl
  | cons c p ih =>
    obtain ⟨hedge, hchain⟩ := List.isChain_cons_cons.mp hchain
    rw [List.getLast?_cons_cons] at hlast
    have hstep := h.reach a (hall a hedge.1) c hedge
    have hrest := ih hchain hlast
    rw [List.length_cons]
    omega

/-- The path that `prev` gives. -/
theorem Along.trace {order : List Str} (h : Along g order d) (n : ℕ) : ∀ v ∈ g.nodes, d.dist v = n →
    ∃ p, p.IsChain g.Edge ∧
    p.getLast? = some v ∧ (∀ x ∈ p, x ∈ g.nodes) ∧ p.length = n + 1 ∧ ∀ fuel > n,
    (g.trace d fuel (some v)).reverse = p := by
  induction n with
  | zero =>
    intro v hv hdist
    have hprev : d.prev v = none := by
      cases hprev : d.prev v with
      | none => rfl
      | some m =>
        have hlen := (h.step v m hprev).2.2
        omega
    refine ⟨[v], .singleton _, rfl, by simpa using hv, rfl, fun fuel hfuel => ?_⟩
    obtain ⟨fuel, rfl⟩ : ∃ j, fuel = j + 1 := ⟨fuel - 1, by omega⟩
    rw [PackageGraph.trace, if_pos hv, hprev]
    cases fuel <;> rfl
  | succ n ih =>
    intro v hv hdist
    obtain ⟨m, hprev⟩ : ∃ m, d.prev v = some m := by
      cases hprev : d.prev v with
      | none =>
        have hzero := h.root v hprev
        omega
      | some m => exact ⟨m, rfl⟩
    obtain ⟨hedge, -, hlen⟩ := h.step v m hprev
    obtain ⟨p, hchain, hlast, hnodes, hlength, hrun⟩ := ih m hedge.1 (by omega)
    refine ⟨p ++ [v], hchain.append (.singleton _) fun x hx y hy => ?_, List.getLast?_concat,
      fun x hx => ?_, by simp [hlength], fun fuel hfuel => ?_⟩
    · obtain rfl : v = y := by simpa using hy
      obtain rfl : m = x := by rw [hlast] at hx; simpa using hx
      exact hedge
    · rcases List.mem_append.mp hx with hx | hx
      · exact hnodes x hx
      · exact List.mem_singleton.mp hx ▸ hv
    · obtain ⟨fuel, rfl⟩ : ∃ j, fuel = j + 1 := ⟨fuel - 1, by omega⟩
      rw [PackageGraph.trace, if_pos hv, hprev, List.reverse_cons, hrun fuel (by omega)]

theorem farthest_spec (d : Longest) : (g.nodes = [] ∧ g.farthest d = none) ∨
    ∃ v ∈ g.nodes, g.farthest d = some v ∧ ∀ n ∈ g.nodes, d.dist n ≤ d.dist v := by
  have hfold : ∀ (rest : List Str) (n : Str),
      let best := rest.foldl (fun best m => if d.dist best < d.dist m then m else best) n
      best ∈ n :: rest ∧ ∀ m ∈ n :: rest, d.dist m ≤ d.dist best := by
    intro rest
    induction rest with
    | nil => simp
    | cons m rest ih =>
      intro n
      obtain ⟨hmem, hmax⟩ := ih (if d.dist n < d.dist m then m else n)
      refine ⟨?_, fun k hk => ?_⟩
      · rw [List.foldl_cons]
        rcases List.mem_cons.mp hmem with heq | hmem
        · rw [heq]
          split <;> simp
        · exact List.mem_cons_of_mem _ (List.mem_cons_of_mem _ hmem)
      · rw [List.foldl_cons]
        have hhead := hmax _ List.mem_cons_self
        rcases List.mem_cons.mp hk with rfl | hk
        · refine le_trans ?_ hhead
          split <;> omega
        · rcases List.mem_cons.mp hk with rfl | hk
          · refine le_trans ?_ hhead
            split <;> omega
          · exact hmax k (List.mem_cons_of_mem _ hk)
  unfold farthest
  cases hnodes : g.nodes with
  | nil => exact .inl ⟨rfl, rfl⟩
  | cons n rest =>
    obtain ⟨hmem, hmax⟩ := hfold rest n
    exact .inr ⟨_, hmem, rfl, hmax⟩

/-- **The critical path of a graph without cycles** is a longest path. -/
theorem criticalPath_spec (g : PackageGraph) (hacyclic : Acyclic g.Edge) :
    (∀ fuel > g.nodes.length, g.criticalPathWith fuel = g.criticalPath) ∧
    IsSimple g.Edge g.Node g.criticalPath.1 ∧
    edges g.criticalPath.1 = g.criticalPath.2 ∧
      (∀ p, IsSimple g.Edge g.Node p → edges p ≤ g.criticalPath.2) ∧
    (g.nodes ≠ [] → g.criticalPath.1 ≠ []) := by
  obtain ⟨k, h, hqueue, hrun⟩ :=
    drain_spec g.nodes.length g.kahnInit exact_init (Nat.le_add_right _ _)
  have hall := h.complete hqueue hacyclic
  have hnodes : ∀ n ∈ k.topoOrder, n ∈ g.nodes :=
    fun n hn => ((h.ready n).mp (List.mem_append_left _ hn)).1
  have halong := along_order (List.nodup_append.mp h.nodup).1 hnodes h.ordered
  set d := g.longestAlong k.topoOrder with hd
  have hwith : ∀ fuel > g.nodes.length, g.criticalPathWith fuel =
      (g.farthest d).elim ([], 0) fun v => ((g.trace d fuel (some v)).reverse, d.dist v) := by
    intro fuel hfuel
    unfold criticalPathWith
    rw [hrun fuel hfuel.le]
    dsimp only
    rw [← hd]
    cases g.farthest d <;> rfl
  rcases farthest_spec (g := g) d with ⟨hnil, hfar⟩ | ⟨v, hv, hfar, hmax⟩
  · rw [hfar] at hwith
    have hpath : g.criticalPath = ([], 0) := hwith _ (Nat.lt_succ_self _)
    rw [hpath]
    refine ⟨hwith, ⟨.nil, by simp, List.nodup_nil⟩, rfl, fun p hp => ?_, fun hne => absurd hnil hne⟩
    -- without nodes there is no other path
    have hempty : p = [] := List.eq_nil_iff_forall_not_mem.mpr fun x hx => by
      have hnode := hp.points x hx
      rw [Node, hnil] at hnode
      cases hnode
    rw [hempty]
    exact Nat.le_refl 0
  · rw [hfar] at hwith
    -- the trace back from the farthest node is a path, and none is longer
    obtain ⟨p, hchain, hlast, hpoints, hlength, htrace⟩ := halong.trace _ v hv rfl
    have hnodup := nodup_of_acyclic hacyclic hchain
    have hshort : d.dist v < g.nodes.length := by
      have hle := (hnodup.subperm hpoints).length_le
      omega
    have hwith' : ∀ fuel > g.nodes.length, g.criticalPathWith fuel = (p, d.dist v) :=
      fun fuel hfuel => by
      rw [hwith fuel hfuel]
      exact Prod.ext (htrace fuel (by omega)) rfl
    have hpath : g.criticalPath = (p, d.dist v) := hwith' _ (Nat.lt_succ_self _)
    rw [hpath]
    refine ⟨hwith', ⟨hchain, hpoints, hnodup⟩, by rw [edges, hlength]; rfl, fun q hq => ?_,
      fun _ hnil => ?_⟩
    · cases q with
      | nil => exact Nat.zero_le _
      | cons a q =>
        obtain ⟨b, hb⟩ : ∃ b, (a :: q).getLast? = some b :=
          ⟨_, List.getLast?_eq_some_getLast (List.cons_ne_nil a q)⟩
        have hbound := halong.bound hall hq.chain hb
        have hle := hmax b (hq.points b (List.mem_of_getLast? hb))
        show (a :: q).length - 1 ≤ d.dist v
        rw [List.length_cons]
        omega
    · rw [show p = [] from hnil] at hlast
      cases hlast

end

/-! ## Longest simple paths -/

section

variable {v w : Str} {path : List Str} {best best' : Best}

/-- The best is a simple path, and it is counted right. -/
structure Best.Ok (g : PackageGraph) (best : Best) : Prop where
  simple : IsSimple g.Edge g.Node best.path
  count : best.len = best.path.length

/-- What a part of the search does that goes on from `path` with one of `ws`: the best is at least
as long as every simple path that does. -/
structure Improves (g : PackageGraph) (path : List Str) (ws : List Str) (best best' : Best) :
    Prop where
  ok : best'.Ok g
  grows : best.len ≤ best'.len
  covers : ∀ w ∈ ws, ∀ p, IsSimple g.Edge g.Node (path ++ w :: p) →
    (path ++ w :: p).length ≤ best'.len

theorem Improves.cons {ws : List Str} {best'' : Best} (h : Improves g path [w] best best')
    (h' : Improves g path ws best' best'') : Improves g path (w :: ws) best best'' := by
  refine ⟨h'.ok, h.grows.trans h'.grows, fun x hx p hp => ?_⟩
  rcases List.mem_cons.mp hx with rfl | hx
  · exact (h.covers x List.mem_cons_self p hp).trans h'.grows
  · exact h'.covers x hx p hp

/-- What a call of `dfs` does from a path that leaves room for `m` more packages. -/
def ExtendSpec (g : PackageGraph) (m : ℕ) : Prop := ∀ v visited path best, best.Ok g →
    (∀ x, x ∈ visited ↔ x ∈ path) →
  g.nodes.length ≤ m + path.length → IsSimple g.Edge g.Node (path ++ [v]) →
  ∃ best', Improves g path [v] best best' ∧
    ∀ fuel > m, g.extend fuel v ⟨visited, path, best⟩ = ⟨visited, path, best'⟩

/-- The loop over what the end of the path imports. -/
theorem branch_spec {m : ℕ} (hextend : ExtendSpec g m) {visited : List Str}
    (hvisited : ∀ x, x ∈ visited ↔ x ∈ path)
    (hroom : g.nodes.length ≤ m + path.length) (hsimple : IsSimple g.Edge g.Node path)
    (hlast : path.getLast? = some v) :
    ∀ (ws : List Str) (best : Best), (∀ w ∈ ws, w ∈ g.adjOf v) → best.Ok g → ∃ best',
      Improves g path ws best best' ∧
      ∀ fuel > m,
      ws.foldl (fun (s : Walk) w => if w ∉ s.visited ∧ w ∈ g.nodes then g.extend fuel w s else s)
        ⟨visited, path, best⟩ = ⟨visited, path, best'⟩
  | [], best, _, hbest => ⟨best, ⟨hbest, le_rfl, by simp⟩, fun _ _ => rfl⟩
  | w :: ws, best, hadj, hbest => by
    obtain ⟨best₁, h₁, hrun⟩ : ∃ best₁, Improves g path [w] best best₁ ∧
        ∀ fuel > m, (if w ∉ visited ∧ w ∈ g.nodes then g.extend fuel w ⟨visited, path, best⟩
          else ⟨visited, path, best⟩) = ⟨visited, path, best₁⟩ := by
      by_cases hw : w ∉ visited ∧ w ∈ g.nodes
      · have hlonger : IsSimple g.Edge g.Node (path ++ [w]) := by
          refine ⟨hsimple.chain.append (.singleton _) fun x hx y hy => ?_, fun x hx => ?_, ?_⟩
          · obtain rfl : w = y := by simpa using hy
            obtain rfl : v = x := by rw [hlast] at hx; simpa using hx
            exact edge_iff.mpr ⟨hw.2, hadj w List.mem_cons_self⟩
          · rcases List.mem_append.mp hx with hx | hx
            · exact hsimple.points x hx
            · exact List.mem_singleton.mp hx ▸ hw.2
          · refine List.nodup_append.mpr ⟨hsimple.nodup, List.nodup_singleton _,
              fun x hx y hy heq => hw.1 ?_⟩
            rw [hvisited, ← List.mem_singleton.mp hy, ← heq]
            exact hx
        obtain ⟨best₁, h₁, hrun⟩ := hextend w visited path best hbest hvisited hroom hlonger
        exact ⟨best₁, h₁, fun fuel hfuel => by rw [if_pos hw, hrun fuel hfuel]⟩
      · refine ⟨best, ⟨hbest, le_rfl, fun x hx p hp => ?_⟩, fun fuel _ => if_neg hw⟩
        -- no simple path goes on there
        obtain rfl := List.mem_singleton.mp hx
        refine absurd ⟨fun hmem => ?_, hp.points x (by simp)⟩ hw
        exact (List.nodup_append.mp hp.nodup).2.2 x ((hvisited x).mp hmem) x List.mem_cons_self rfl
    obtain ⟨best', h', hrest⟩ := branch_spec hextend hvisited hroom hsimple hlast ws best₁
      (fun x hx => hadj x (List.mem_cons_of_mem _ hx)) h₁.ok
    refine ⟨best', h₁.cons h', fun fuel hfuel => ?_⟩
    rw [List.foldl_cons, hrun fuel hfuel]
    exact hrest fuel hfuel

/-- **One call of `dfs`**, by the room that is left. -/
theorem extend_spec (g : PackageGraph) (m : ℕ) : ExtendSpec g m := by
  induction m with
  | zero =>
    intro v visited path best _ _ hroom hsimple
    have hle := (hsimple.nodup.subperm hsimple.points).length_le
    rw [List.length_append, List.length_singleton] at hle
    omega
  | succ m ih =>
    intro v visited path best hbest hvisited hroom hsimple
    -- the path so far is a candidate
    set longer : Best := if (path ++ [v]).length > best.len then ⟨path ++ [v], (path ++ [v]).length⟩
      else best with hlonger
    obtain ⟨hok, hgrows, hpath⟩ : longer.Ok g ∧ best.len ≤ longer.len ∧
        (path ++ [v]).length ≤ longer.len := by
      by_cases hgt : (path ++ [v]).length > best.len
      · rw [hlonger, if_pos hgt]
        exact ⟨⟨hsimple, rfl⟩, hgt.le, le_rfl⟩
      · rw [hlonger, if_neg hgt]
        exact ⟨hbest, le_rfl, not_lt.mp hgt⟩
    have hvisited' : ∀ x, x ∈ v :: visited ↔ x ∈ path ++ [v] := fun x => by
      rw [List.mem_cons, List.mem_append, List.mem_singleton, hvisited, or_comm]
    obtain ⟨best', h, hrun⟩ :=
      branch_spec ih hvisited' (by rw [List.length_append, List.length_singleton]; omega) hsimple
      List.getLast?_concat (g.adjOf v) longer (fun w hw => hw) hok
    refine ⟨best', ⟨h.ok, hgrows.trans h.grows, fun x hx p hp => ?_⟩, fun fuel hfuel => ?_⟩
    · obtain rfl := List.mem_singleton.mp hx
      cases p with
      | nil => exact hpath.trans h.grows
      | cons w p =>
        have hsplit : path ++ x :: w :: p = path ++ [x] ++ w :: p := by simp
        rw [hsplit] at hp ⊢
        have hedge := (List.isChain_append.mp hp.chain).2.2 x List.getLast?_concat w rfl
        exact h.covers w hedge.2.2 p hp
    · obtain ⟨fuel, rfl⟩ : ∃ j, fuel = j + 1 := ⟨fuel - 1, by omega⟩
      unfold extend
      dsimp only
      rw [← hlonger, hrun fuel (by omega), List.erase_cons_head, List.dropLast_concat]

/-- `_longest_simple_path` from one of the packages. -/
theorem longest_spec (g : PackageGraph) (hv : v ∈ g.nodes) :
    (∀ fuel > g.nodes.length, g.longestSimplePathWith fuel v = g.longestSimplePath v) ∧
    IsSimple g.Edge g.Node (g.longestSimplePath v).1 ∧ edges (g.longestSimplePath v).1 =
    (g.longestSimplePath v).2 ∧
    ∀ p, IsSimple g.Edge g.Node (v :: p) → edges (v :: p) ≤ (g.longestSimplePath v).2 := by
  obtain ⟨best, h, hrun⟩ :=
    extend_spec g g.nodes.length v [] [] ⟨[], 0⟩ ⟨⟨.nil, by simp, List.nodup_nil⟩, rfl⟩
    (fun _ => Iff.rfl)
    (Nat.le_add_right _ _) ⟨.singleton _, by simpa [Node] using hv, List.nodup_singleton _⟩
  have hwith : ∀ fuel > g.nodes.length, g.longestSimplePathWith fuel v =
      (best.path, best.len - 1) := fun fuel hfuel => by
    rw [longestSimplePathWith, hrun fuel hfuel]
  have hpath : g.longestSimplePath v = (best.path, best.len - 1) := hwith _ (Nat.lt_succ_self _)
  rw [hpath]
  refine ⟨hwith, h.ok.simple, by rw [edges, h.ok.count], fun p hp => ?_⟩
  have hle := h.covers v List.mem_cons_self p hp
  exact Nat.sub_le_sub_right hle 1

/-- The longest of the simple paths from the packages. -/
theorem longest_of_all (g : PackageGraph) : ∀ (ws : List Str) (best : List Str × ℕ),
    (∀ w ∈ ws, w ∈ g.nodes) → IsSimple g.Edge g.Node best.1 ∧ edges best.1 = best.2 →
    let found :=
      ws.foldl (fun best start => if (g.longestSimplePath start).2 > best.2
        then g.longestSimplePath start else best) best
    (IsSimple g.Edge g.Node found.1 ∧ edges found.1 = found.2) ∧ best.2 ≤ found.2 ∧
      ∀ w ∈ ws, ∀ p, IsSimple g.Edge g.Node (w :: p) → edges (w :: p) ≤ found.2
  | [], best, _, hbest => ⟨hbest, le_rfl, by simp⟩
  | w :: ws, best, hws, hbest => by
    obtain ⟨-, hsimple, hcount, hbound⟩ := longest_spec g (hws w List.mem_cons_self)
    set next := if (g.longestSimplePath w).2 > best.2 then g.longestSimplePath w else best
      with hnext
    obtain ⟨hok, hgrows, hcovers⟩ : (IsSimple g.Edge g.Node next.1 ∧ edges next.1 = next.2) ∧
      best.2 ≤ next.2 ∧ (g.longestSimplePath w).2 ≤ next.2 := by
      by_cases hgt : (g.longestSimplePath w).2 > best.2
      · rw [hnext, if_pos hgt]
        exact ⟨⟨hsimple, hcount⟩, hgt.le, le_rfl⟩
      · rw [hnext, if_neg hgt]
        exact ⟨hbest, le_rfl, not_lt.mp hgt⟩
    obtain ⟨hfound, hmore, hrest⟩ :=
      longest_of_all g ws next (fun x hx => hws x (List.mem_cons_of_mem _ hx)) hok
    refine ⟨hfound, hgrows.trans hmore, fun x hx p hp => ?_⟩
    rcases List.mem_cons.mp hx with rfl | hx
    · exact ((hbound p hp).trans hcovers).trans hmore
    · exact hrest x hx p hp

end

/-! ## The analysis of a graph -/

/-- The analysis is right: there are no cycles in the report iff there are none, otherwise every
simple cycle is there once, from one of its packages on; and the critical path is a longest path, or
a longest simple one where there are cycles. -/
structure Analyzed (g : PackageGraph) : Prop where
  none_iff : g.detectCycles = [] ↔ Acyclic g.Edge
  cycles : ∀ c ∈ g.detectCycles, IsCycle g.Edge g.Node c
  every : ∀ c, IsCycle g.Edge g.Node c → g.detectCycles.countP (fun c' => c'.IsRotated c) = 1
  path : IsSimple g.Edge g.Node g.criticalPathOf.1
  length : edges g.criticalPathOf.1 = g.criticalPathOf.2
  longest : ∀ p, IsSimple g.Edge g.Node p → edges p ≤ g.criticalPathOf.2
  terminates : ∀ fuel > g.nodes.length, g.detectCyclesWith fuel = g.detectCycles ∧
    (Acyclic g.Edge → g.criticalPathWith fuel = g.criticalPath) ∧ ∀ v ∈ g.nodes,
    g.longestSimplePathWith fuel v = g.longestSimplePath v

theorem criticalPathOf_spec (g : PackageGraph) :
    (IsSimple g.Edge g.Node g.criticalPathOf.1 ∧ edges g.criticalPathOf.1 = g.criticalPathOf.2) ∧
    ∀ p, IsSimple g.Edge g.Node p → edges p ≤ g.criticalPathOf.2 := by
  unfold criticalPathOf
  by_cases hcycles : g.detectCycles = []
  · rw [if_pos hcycles]
    obtain ⟨-, hsimple, hcount, hbound, -⟩ := criticalPath_spec g (detectCycles_eq_nil.mp hcycles)
    exact ⟨⟨hsimple, hcount⟩, hbound⟩
  · rw [if_neg hcycles]
    obtain ⟨hfound, -, hbound⟩ :=
      longest_of_all g g.nodes ([], 0) (fun _ => id) ⟨⟨.nil, by simp, List.nodup_nil⟩, rfl⟩
    refine ⟨hfound, fun p hp => ?_⟩
    cases p with
    | nil => exact Nat.zero_le _
    | cons a p => exact hbound a (hp.points a List.mem_cons_self) p hp

/-- A cycle is found once or not at all. -/
theorem countP_isRotated (g : PackageGraph) (c : List Str) : g.detectCycles.countP
    (fun c' => c'.IsRotated c) = 1 ↔ ∃ c' ∈ g.detectCycles, c'.IsRotated c := by
  have hone : g.detectCycles.countP (fun c' => c'.IsRotated c) ≤ 1 := by
    rw [List.countP_eq_length_filter]
    have hnodup : (g.detectCycles.filter fun c' => c'.IsRotated c).Nodup :=
      (detectCycles_spec g).2.1.filter _
    have hmem : ∀ c' ∈ g.detectCycles.filter (fun c' => c'.IsRotated c), c' ∈ g.detectCycles ∧
      c'.IsRotated c := fun c' hc' =>
      (List.mem_filter.mp hc').imp_right of_decide_eq_true
    generalize g.detectCycles.filter (fun c' => c'.IsRotated c) = found at hnodup hmem
    match found with
    | [] => exact Nat.zero_le 1
    | [_] => exact le_rfl
    | a :: b :: _ =>
      obtain ⟨ha, hac⟩ := hmem a List.mem_cons_self
      obtain ⟨hb, hbc⟩ := hmem b (List.mem_cons_of_mem _ List.mem_cons_self)
      have hab : a = b := eq_of_isRotated_of_mem ha hb (hac.trans hbc.symm)
      exact absurd (hab ▸ List.mem_cons_self) (List.nodup_cons.mp hnodup).1
  have hpos : 0 < g.detectCycles.countP (fun c' => c'.IsRotated c) ↔ ∃ c' ∈ g.detectCycles,
      c'.IsRotated c := by
    rw [List.countP_pos_iff]
    simp
  rw [← hpos]
  omega

/-- Every simple cycle is found iff it is, from one of its packages on, the end of the first path to
its last package. -/
theorem analyzed_iff (g : PackageGraph) : Analyzed g ↔ ∀ c, IsCycle g.Edge g.Node c →
    ∃ c', c'.IsRotated c ∧ ∃ p x, IsFirst g.Edge g.Node p x ∧ c' <:+ p := by
  have hevery :
    (∀ c, IsCycle g.Edge g.Node c → g.detectCycles.countP (fun c' => c'.IsRotated c) = 1) ↔
      ∀ c, IsCycle g.Edge g.Node c → ∃ c', c'.IsRotated c ∧ ∃ p x, IsFirst g.Edge g.Node p x ∧
      c' <:+ p := by
    refine forall₂_congr fun c hc => ?_
    rw [countP_isRotated]
    constructor
    · rintro ⟨c', hmem, hrotated⟩
      exact ⟨c', hrotated, (mem_detectCycles.mp hmem).2⟩
    · rintro ⟨c', hrotated, hfirst⟩
      obtain ⟨n, hn⟩ := hrotated.symm
      have hcycle : IsCycle g.Edge g.Node c' := by
        rw [← hn, List.rotate_eq_drop_append_take_mod]
        exact IsCycle.rotate (by rwa [List.take_append_drop])
      exact ⟨c', mem_detectCycles.mpr ⟨hcycle, hfirst⟩, hrotated⟩
  obtain ⟨⟨hpath, hlength⟩, hlongest⟩ := criticalPathOf_spec g
  refine ⟨fun h => hevery.mp h.every, fun h =>
    ⟨detectCycles_eq_nil, fun c hc => (mem_detectCycles.mp hc).1, hevery.mpr h, hpath, hlength,
    hlongest, fun fuel hfuel =>
    ⟨(detectCycles_spec g).1 fuel hfuel, fun hacyclic =>
      (criticalPath_spec g hacyclic).1 fuel hfuel, fun v hv => (longest_spec g hv).1 fuel hfuel⟩⟩⟩

/-- **The analysis of the packages.** It is right but for the simple cycles that no first path ends
with, which are left out. -/
theorem analysis_law (g : PackageGraph) :
    ((g.detectCycles = [] ↔ Acyclic g.Edge) ∧ (∀ c ∈ g.detectCycles, IsCycle g.Edge g.Node c) ∧
      IsSimple g.Edge g.Node g.criticalPathOf.1 ∧ edges g.criticalPathOf.1 = g.criticalPathOf.2 ∧
      ∀ p, IsSimple g.Edge g.Node p → edges p ≤ g.criticalPathOf.2) ∧
    (Analyzed g ↔ ∀ c, IsCycle g.Edge g.Node c → ∃ c', c'.IsRotated c ∧
        ∃ p x, IsFirst g.Edge g.Node p x ∧ c' <:+ p) := by
  obtain ⟨⟨hpath, hlength⟩, hlongest⟩ := criticalPathOf_spec g
  exact ⟨⟨detectCycles_eq_nil, fun c hc => (mem_detectCycles.mp hc).1, hpath, hlength, hlongest⟩,
    analyzed_iff g⟩

/-- `a` imports `b` and `c`, which import `d`, which imports `a`. -/
def diamond : PackageGraph :=
  { nodes := [lit "a", lit "b", lit "c", lit "d"]
    adj := [(lit "a", [lit "b", lit "c"]), (lit "b", [lit "d"]), (lit "c", [lit "d"]),
      (lit "d", [lit "a"])]
    nodup_nodes := by decide
    unique_keys := by decide
    keys_nodes := by decide
    nodup_targets := by decide }

/-- The cycle through `c` is not found. -/
theorem cycle_left_out : ¬ Analyzed diamond := by
  intro h
  have hstep : ∀ {x y}, x ∈ diamond.nodes → y ∈ diamond.nodes → y ∈ diamond.adjOf x →
    diamond.Edge x y := fun hx hy h => ⟨hx, hy, h⟩
  have hcycle : IsCycle diamond.Edge diamond.Node [lit "a", lit "c", lit "d"] := by
    refine ⟨⟨?_, ?_, by decide⟩, lit "a", lit "d", rfl, rfl, hstep (by decide) (by decide)
      (by decide)⟩
    · exact .cons_cons (hstep (by decide) (by decide) (by decide))
        (.cons_cons (hstep (by decide) (by decide) (by decide)) (.singleton _))
    · show ∀ x ∈ [lit "a", lit "c", lit "d"], x ∈ diamond.nodes
      decide
  have hfound : diamond.detectCycles = [[lit "a", lit "b", lit "d"]] := by decide +kernel
  have hone := h.every _ hcycle
  rw [hfound] at hone
  exact absurd hone (by decide)

end PackageGraph

end Plei
