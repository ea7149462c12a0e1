import Msb.Plei.PackageGraph

/-!
# What the search for cycles finds

`_detect_cycles` takes the packages by name, so it comes to each of them by the least simple path
there is. An edge to a package on that path closes a cycle; an edge to a package that is done does
not.

* `visit_spec` — one call of `dfs`
* `detectCycles_spec` — the cycles that are returned: the ends of first paths that an edge closes
-/

namespace Plei

namespace PackageGraph

open Py Paths

variable {g : PackageGraph}

/-- `x` imports `y`, and both are packages. -/
def Edge (g : PackageGraph) (x y : Str) : Prop := x ∈ g.nodes ∧ y ∈ g.nodes ∧ y ∈ g.adjOf x

/-- One of the packages. -/
def Node (g : PackageGraph) (x : Str) : Prop := x ∈ g.nodes

/-- The cycle that an edge from `u` closes, back along the first path to `u`. -/
def Found (g : PackageGraph) (u : Str) (c : List Str) : Prop :=
  ∃ p w, IsTree g.Edge g.Node p ∧ p.getLast? = some u ∧ w ∈ p ∧ g.Edge u w ∧ c = p.drop (p.idxOf w)

/-! ## Sorting -/

theorem mem_sorted {xs : List Str} {x : Str} : x ∈ sorted xs ↔ x ∈ xs :=
  (List.perm_insertionSort _ xs).mem_iff

theorem nodup_sorted {xs : List Str} (h : xs.Nodup) : (sorted xs).Nodup :=
  (List.perm_insertionSort _ xs).nodup_iff.mpr h

theorem pairwise_sorted (xs : List Str) : (sorted xs).Pairwise (· ≤ ·) :=
  List.pairwise_insertionSort _ xs

/-- What is less than an entry stands before it. -/
theorem mem_of_lt {xs front back : List Str} {a b : Str} (h : front ++ b :: back = sorted xs)
    (ha : a ∈ xs) (hab : a < b) : a ∈ front := by
  have hmem : a ∈ front ++ b :: back := h ▸ mem_sorted.mpr ha
  have hsorted : (front ++ b :: back).Pairwise (· ≤ ·) := h ▸ pairwise_sorted xs
  rcases List.mem_append.mp hmem with hfront | hback
  · exact hfront
  · have hle : b ≤ a := by
      rcases List.mem_cons.mp hback with rfl | hback
      · exact le_rfl
      · exact (List.pairwise_cons.mp (List.pairwise_append.mp hsorted).2.1).1 a hback
    exact absurd hab (not_lt.mpr hle)

theorem nodup_adjOf (g : PackageGraph) (v : Str) : (g.adjOf v).Nodup := by
  unfold adjOf
  cases hfind : g.adj.find? fun p => p.1 = v with
  | none => exact List.nodup_nil
  | some p => exact g.nodup_targets p (List.mem_of_find?_eq_some hfind)

theorem mem_adjOf {v w : Str} : w ∈ g.adjOf v ↔ ∃ p ∈ g.adj, p.1 = v ∧ w ∈ p.2 := by
  unfold adjOf
  cases hfind : g.adj.find? fun p => p.1 = v with
  | none =>
    rw [List.find?_eq_none] at hfind
    simp only [Option.map_none, Option.getD_none, List.not_mem_nil, false_iff, not_exists, not_and]
    intro p hp hv
    exact absurd (decide_eq_true hv) (hfind p hp)
  | some p =>
    have hp := List.mem_of_find?_eq_some hfind
    have hv : p.1 = v := by simpa using List.find?_some hfind
    constructor
    · intro hw
      exact ⟨p, hp, hv, hw⟩
    · rintro ⟨q, hq, hqv, hw⟩
      obtain rfl : q = p := List.inj_on_of_nodup_map g.unique_keys hq hp (hqv.trans hv.symm)
      exact hw

theorem edge_iff {v w : Str} : g.Edge v w ↔ w ∈ g.nodes ∧ w ∈ g.adjOf v := by
  refine ⟨And.right, fun h => ⟨?_, h⟩⟩
  obtain ⟨p, hp, rfl, -⟩ := mem_adjOf.mp h.2
  exact g.keys_nodes p hp

/-! ## The state of the search -/

/-- The packages on the stack are gray, the stack is a first path, and what is done leads to nothing
new. -/
structure Ok (g : PackageGraph) (s : Search) : Prop where
  gray : ∀ x, s.color x = .gray ↔ x ∈ s.stack
  nodes : ∀ x, s.color x ≠ .white → x ∈ g.nodes
  closed : ∀ x y, s.color x = .black → g.Edge x y → s.color y ≠ .white
  simple : IsSimple g.Edge g.Node s.stack
  tree : IsTree g.Edge g.Node s.stack
  seenTree : ∀ x, s.color x ≠ .white → ∃ p, IsTree g.Edge g.Node p ∧ p.getLast? = some x

/-- Every simple path that goes another way before `q` does leads to what has been seen. -/
def SeenBefore (g : PackageGraph) (s : Search) (q : List Str) : Prop :=
  ∀ p x, IsSimple g.Edge g.Node p → p.getLast? = some x → Before p q → s.color x ≠ .white

/-- What a part of the search does that looks at edges from the end of the stack to `ws`. -/
structure Extends (g : PackageGraph) (ws : List Str) (s s' : Search) : Prop where
  ok : Ok g s'
  stack : s'.stack = s.stack
  seen : ∀ x, s.color x ≠ .white → s'.color x ≠ .white
  done : ∀ w ∈ ws, w ∈ g.nodes → s'.color w ≠ .white
  cycles : ∃ new, s'.cycles = s.cycles ++ new ∧ new.Nodup ∧ ∀ c, c ∈ new ↔
    (∃ w ∈ ws, w ∈ s.stack ∧ c = s.stack.drop (s.stack.idxOf w)) ∨ ∃ u, s.color u = .white ∧
    s'.color u ≠ .white ∧ Found g u c

variable {s s' s'' : Search} {ws ws' : List Str} {u v w x : Str} {c p t : List Str}

theorem drop_idxOf (hw : w ∈ p) : ∃ r, p.drop (p.idxOf w) = w :: r := by
  have hlt : p.idxOf w < p.length := List.idxOf_lt_length_iff.mpr hw
  refine ⟨p.drop (p.idxOf w + 1), ?_⟩
  rw [List.drop_eq_getElem_cons hlt, List.getElem_idxOf]

theorem getLast?_drop_idxOf (hw : w ∈ p) : (p.drop (p.idxOf w)).getLast? = p.getLast? := by
  obtain ⟨r, hr⟩ := drop_idxOf hw
  conv_rhs => rw [← List.take_append_drop (p.idxOf w) p]
  rw [hr, List.getLast?_append, List.getLast?_cons]
  rfl

theorem Found.last (h : Found g u c) : c.getLast? = some u := by
  obtain ⟨p, w, -, hlast, hw, -, rfl⟩ := h
  rw [getLast?_drop_idxOf hw, hlast]

theorem Extends.refl (h : Ok g s) : Extends g [] s s := by
  refine ⟨h, rfl, fun _ => id, by simp, [], by simp, List.nodup_nil, fun c =>
    iff_of_false List.not_mem_nil ?_⟩
  rintro (⟨w, hw, -⟩ | ⟨u, hwhite, hseen, -⟩)
  · cases hw
  · exact hseen hwhite

theorem Extends.trans (hs : Ok g s) (h : Extends g ws s s') (h' : Extends g ws' s' s'')
    (hdisjoint : ∀ w ∈ ws, w ∉ ws') : Extends g (ws ++ ws') s s'' := by
  obtain ⟨new, hnew, hnodup, hmem⟩ := h.cycles
  obtain ⟨new', hnew', hnodup', hmem'⟩ := h'.cycles
  rw [h.stack] at hmem'
  -- the end of the stack has been seen all along
  have htop : ∀ {u w}, w ∈ s.stack → (s.stack.drop (s.stack.idxOf w)).getLast? = some u →
      s.color u ≠ .white := by
    intro u w hw hlast
    rw [getLast?_drop_idxOf hw] at hlast
    rw [(hs.gray u).mpr (List.mem_of_getLast? hlast)]
    simp
  refine ⟨h'.ok, h'.stack.trans h.stack, fun x hx => h'.seen x (h.seen x hx), fun w hw hnode => ?_,
    new ++ new', ?_, ?_, fun c => ?_⟩
  · rcases List.mem_append.mp hw with hw | hw
    · exact h'.seen w (h.done w hw hnode)
    · exact h'.done w hw hnode
  · rw [hnew', hnew, List.append_assoc]
  · refine List.nodup_append.mpr ⟨hnodup, hnodup', ?_⟩
    rintro c hc c' hc' rfl
    rcases (hmem c).mp hc with ⟨w, hw, hstack, rfl⟩ | ⟨u, hwhite, hseen, hfound⟩
    · rcases (hmem' _).mp hc' with ⟨w', hw', hstack', heq⟩ | ⟨u, hwhite, -, hfound⟩
      · obtain ⟨r, hr⟩ := drop_idxOf hstack
        obtain ⟨r', hr'⟩ := drop_idxOf hstack'
        rw [hr, hr'] at heq
        obtain rfl := (List.cons.inj heq).1
        exact hdisjoint w hw hw'
      · exact h.seen u (htop hstack hfound.last) hwhite
    · rcases (hmem' _).mp hc' with ⟨w', hw', hstack', rfl⟩ | ⟨u', hwhite', -, hfound'⟩
      · exact htop hstack' hfound.last hwhite
      · obtain rfl := Option.some.inj (hfound.last.symm.trans hfound'.last)
        exact hseen hwhite'
  · rw [List.mem_append, hmem, hmem']
    simp only [List.mem_append]
    constructor
    · rintro ((⟨w, hw, hc⟩ | ⟨u, hwhite, hseen, hfound⟩) | ⟨w, hw, hc⟩ | ⟨u, hwhite, hseen, hfound⟩)
      · exact .inl ⟨w, .inl hw, hc⟩
      · exact .inr ⟨u, hwhite, h'.seen u hseen, hfound⟩
      · exact .inl ⟨w, .inr hw, hc⟩
      · refine .inr ⟨u, ?_, hseen, hfound⟩
        by_contra hu
        exact h.seen u hu hwhite
    · rintro (⟨w, hw | hw, hc⟩ | ⟨u, hwhite, hseen, hfound⟩)
      · exact .inl (.inl ⟨w, hw, hc⟩)
      · exact .inr (.inl ⟨w, hw, hc⟩)
      · by_cases hu : s'.color u = .white
        · exact .inr (.inr ⟨u, hu, hseen, hfound⟩)
        · exact .inl (.inr ⟨u, hwhite, hu, hfound⟩)

/-- An edge that is not looked at. -/
theorem Extends.skip (h : Ok g s) (hw : w ∉ s.stack) (hdone : w ∈ g.nodes → s.color w ≠ .white) :
    Extends g [w] s s := by
  refine ⟨h, rfl, fun _ => id, by simpa using hdone, [], by simp, List.nodup_nil, fun c =>
    iff_of_false List.not_mem_nil ?_⟩
  rintro (⟨w', hw', hstack, -⟩ | ⟨u, hwhite, hseen, -⟩)
  · exact hw (List.mem_singleton.mp hw' ▸ hstack)
  · exact hseen hwhite

theorem Extends.cons (hs : Ok g s) (h : Extends g [w] s s') (h' : Extends g ws s' s'') (hw : w ∉ ws)
    : Extends g (w :: ws) s s'' :=
  Extends.trans hs h h' fun x hx => by rwa [List.mem_singleton.mp hx]

/-! ## First paths -/

/-- The paths that go another way before the stack does are no matter further on. -/
theorem SeenBefore.mono (h : SeenBefore g s t) (hseen : ∀ x, s.color x ≠ .white →
    s'.color x ≠ .white) : SeenBefore g s' t :=
  fun p x hp hx hbefore => hseen x (h p x hp hx hbefore)

/-- What is reached from what has been seen without passing the stack has been seen. -/
theorem Ok.reached (h : Ok g s) (hp : p.IsChain g.Edge) (hhead : ∀ a ∈ p.head?, s.color a ≠ .white)
    (hfree : ∀ y ∈ p, y ∉ s.stack) : ∀ y ∈ p, s.color y ≠ .white := by
  refine mem_of_closed (T := (· ∈ s.stack)) (fun x y hx hxs hedge => h.closed x y ?_ hedge) hp
    hhead hfree
  cases hcolor : s.color x with
  | white => exact absurd hcolor hx
  | gray => exact absurd ((h.gray x).mp hcolor) hxs
  | black => rfl

/-- The same for the path one edge further, where what comes before the edge has been seen. -/
theorem SeenBefore.child (h : SeenBefore g s s.stack) (hs : Ok g s)
    (hlast : s.stack.getLast? = some v)
    (hbefore : ∀ a, g.Edge v a → a < w → s.color a ≠ .white) : SeenBefore g s (s.stack ++ [w]) := by
  rintro p x hp hx ⟨r, a, b, p', q', hab, rfl, hq⟩
  rcases List.eq_nil_or_concat q' with rfl | ⟨q', b', rfl⟩
  · obtain ⟨rfl, hb⟩ := List.append_inj' hq rfl
    obtain rfl : w = b := by simpa using hb
    obtain ⟨hleft, hright, hmid⟩ := List.isChain_append.mp hp.chain
    have ha := hbefore a (hmid v hlast a rfl) hab
    have hfree : ∀ y ∈ a :: p', y ∉ s.stack := fun y hy hys =>
      (List.nodup_append.mp hp.nodup).2.2 y hys y hy rfl
    have hseen := hs.reached hright (fun c hc => (show a = c by simpa using hc) ▸ ha) hfree
    refine hseen x ?_
    rw [List.getLast?_append, List.getLast?_cons] at hx
    exact List.mem_of_getLast? (by rw [List.getLast?_cons]; simpa using hx)
  · have hsplit : s.stack ++ [w] = (r ++ b :: q') ++ [b'] := by simpa using hq
    obtain ⟨hstack, -⟩ := List.append_inj' hsplit rfl
    exact h _ x hp hx ⟨r, a, b, p', q', hab, rfl, hstack⟩

/-- The path by which a search comes to a new package is the first one there is. -/
theorem isTree_push (hs : Ok g s) (hv : s.color v = .white) (hnode : v ∈ g.nodes)
    (hedge : ∀ u ∈ s.stack.getLast?, g.Edge u v)
    (hbefore : SeenBefore g s (s.stack ++ [v])) :
    IsSimple g.Edge g.Node (s.stack ++ [v]) ∧ IsTree g.Edge g.Node (s.stack ++ [v]) := by
  have hnew : v ∉ s.stack := fun hmem => by
    rw [(hs.gray v).mpr hmem] at hv
    cases hv
  have hsimple : IsSimple g.Edge g.Node (s.stack ++ [v]) := by
    refine ⟨hs.simple.chain.append (.singleton _) fun u hu w hw => ?_, fun x hx => ?_, ?_⟩
    · obtain rfl : v = w := by simpa using hw
      exact hedge u hu
    · rcases List.mem_append.mp hx with hx | hx
      · exact hs.simple.points x hx
      · exact List.mem_singleton.mp hx ▸ hnode
    · refine List.nodup_append.mpr ⟨hs.simple.nodup, List.nodup_singleton _,
        fun x hx y hy heq => hnew ?_⟩
      rw [← List.mem_singleton.mp hy, ← heq]
      exact hx
  refine ⟨hsimple, ⟨fun q y hpre hlast => ?_⟩⟩
  rcases List.prefix_concat_iff.mp hpre with rfl | hpre
  · obtain rfl : v = y := by simpa using hlast
    exact isFirst_of_before hsimple hlast fun p hp hp' hlt => hbefore p _ hp hp' hlt hv
  · exact hs.tree.first q y hpre hlast

/-! ## The search -/

/-- Pushing a new package on the stack. -/
def push (s : Search) (v : Str) : Search :=
  { s with color := Function.update s.color v .gray, stack := s.stack ++ [v] }

/-- Taking it off again. -/
def finish (s : Search) (v : Str) : Search :=
  { s with stack := s.stack.dropLast, color := Function.update s.color v .black }

/-- Looking at the packages that `v` imports. -/
def scan (g : PackageGraph) (fuel : ℕ) (ws : List Str) (s : Search) : Search :=
  ws.foldl (fun s w => if w ∈ g.nodes then g.visit fuel w s else s) s

theorem visit_black {fuel : ℕ} (h : s.color v = .black) : g.visit (fuel + 1) v s = s := by
  rw [visit, h]

theorem visit_gray {fuel : ℕ} (h : s.color v = .gray) :
    g.visit (fuel + 1) v s = { s with cycles := s.cycles ++ [s.stack.drop (s.stack.idxOf v)] } := by
  rw [visit, h]

theorem visit_white {fuel : ℕ} (h : s.color v = .white) :
    g.visit (fuel + 1) v s = finish (g.scan fuel (sorted (g.adjOf v)) (push s v)) v := by
  rw [visit, h]
  rfl

theorem ok_push (hs : Ok g s) (hv : s.color v = .white) (hnode : v ∈ g.nodes)
    (hsimple : IsSimple g.Edge g.Node (s.stack ++ [v]))
    (htree : IsTree g.Edge g.Node (s.stack ++ [v])) : Ok g (push s v) := by
  have hcolor : ∀ x, x ≠ v → (push s v).color x = s.color x :=
    fun x hx => Function.update_of_ne hx _ _
  have hself : (push s v).color v = .gray := Function.update_self v _ _
  refine ⟨fun x => ?_, fun x hx => ?_, fun x y hx hedge => ?_, hsimple, htree, fun x hx => ?_⟩
  · show _ ↔ x ∈ s.stack ++ [v]
    by_cases hxv : x = v
    · subst hxv
      exact iff_of_true hself (by simp)
    · rw [hcolor x hxv, hs.gray, List.mem_append, List.mem_singleton, or_iff_left hxv]
  · by_cases hxv : x = v
    · exact hxv ▸ hnode
    · exact hs.nodes x (hcolor x hxv ▸ hx)
  · have hxv : x ≠ v := fun heq => by
      rw [heq, hself] at hx
      cases hx
    by_cases hyv : y = v
    · rw [hyv, hself]
      simp
    · rw [hcolor y hyv]
      exact hs.closed x y (hcolor x hxv ▸ hx) hedge
  · by_cases hxv : x = v
    · exact ⟨s.stack ++ [v], htree, by rw [hxv, List.getLast?_concat]⟩
    · exact hs.seenTree x (hcolor x hxv ▸ hx)

/-- From the push to the pop. -/
theorem extends_finish (hs : Ok g s) (hv : s.color v = .white)
    (htree : IsTree g.Edge g.Node (s.stack ++ [v]))
    (h : Extends g (sorted (g.adjOf v)) (push s v) s') : Extends g [v] s (finish s' v) := by
  have hnew : v ∉ s.stack := fun hmem => by
    rw [(hs.gray v).mpr hmem] at hv
    cases hv
  have hstack : s'.stack = s.stack ++ [v] := h.stack
  have hcolor : ∀ x, x ≠ v → (finish s' v).color x = s'.color x :=
    fun x hx => Function.update_of_ne hx _ _
  have hself : (finish s' v).color v = .black := Function.update_self v _ _
  have hpushed : ∀ x, x ≠ v → (push s v).color x = s.color x :=
    fun x hx => Function.update_of_ne hx _ _
  have hgray : (push s v).color v = .gray := Function.update_self v _ _
  -- finishing a node blackens it alone, and it had been seen
  have hseen : ∀ x, (finish s' v).color x ≠ .white ↔ s'.color x ≠ .white := by
    intro x
    by_cases hxv : x = v
    · subst hxv
      rw [hself]
      exact iff_of_true (by simp) (h.seen x (by rw [hgray]; simp))
    · rw [hcolor x hxv]
  have hpop : (finish s' v).stack = s.stack := by
    show s'.stack.dropLast = s.stack
    rw [hstack, List.dropLast_concat]
  have hok : Ok g (finish s' v) := by
    refine ⟨fun x => ?_, fun x hx => h.ok.nodes x ((hseen x).mp hx), fun x y hx hedge => ?_,
      hpop ▸ hs.simple, hpop ▸ hs.tree, fun x hx => h.ok.seenTree x ((hseen x).mp hx)⟩
    · -- what is grey is what is on the stack, and `v` has left it
      rw [hpop]
      by_cases hxv : x = v
      · subst hxv
        rw [hself]
        exact iff_of_false (by simp) hnew
      · rw [hcolor x hxv, h.ok.gray, hstack, List.mem_append, List.mem_singleton, or_iff_left hxv]
    · -- the successors of `v` were visited before it was finished
      rw [hseen]
      by_cases hxv : x = v
      · subst hxv
        exact h.done y (mem_sorted.mpr hedge.2.2) hedge.2.1
      · exact h.ok.closed x y (hcolor x hxv ▸ hx) hedge
  obtain ⟨new, hcycles, hnodup, hmem⟩ := h.cycles
  refine ⟨hok, hpop, fun x hx => (hseen x).mpr (h.seen x ?_), fun w hw _ => ?_, new, hcycles,
    hnodup, fun c => ?_⟩
  · by_cases hxv : x = v
    · rw [hxv, hgray]
      simp
    · rwa [hpushed x hxv]
  · rw [List.mem_singleton.mp hw, hself]
    simp
  · rw [hmem]
    constructor
    · rintro (⟨w, hw, hback, rfl⟩ | ⟨u, hwhite, hsee, hfound⟩)
      · -- an edge back from `v` itself
        have hnode : w ∈ g.nodes := h.ok.nodes w (by rw [(h.ok.gray w).mpr (hstack ▸ hback)]; simp)
        exact .inr ⟨v, hv, by rw [hself]; simp, s.stack ++ [v], w, htree,
          List.getLast?_concat, hback, edge_iff.mpr ⟨hnode, mem_sorted.mp hw⟩, rfl⟩
      · have huv : u ≠ v := fun heq => by
          rw [heq, hgray] at hwhite
          cases hwhite
        exact .inr ⟨u, hpushed u huv ▸ hwhite, (hseen u).mpr hsee, hfound⟩
    · rintro (⟨w, hw, hback, -⟩ | ⟨u, hwhite, hsee, hfound⟩)
      · exact absurd (List.mem_singleton.mp hw ▸ hback) hnew
      · by_cases huv : u = v
        · subst huv
          obtain ⟨p, w, hp, hlast, hw, hedge, rfl⟩ := hfound
          obtain rfl := (hp.isFirst hlast).unique (htree.isFirst List.getLast?_concat)
          exact .inl ⟨w, mem_sorted.mpr hedge.2.2, hw, rfl⟩
        · exact .inr ⟨u, (hpushed u huv).symm ▸ hwhite, (hseen u).mp hsee, hfound⟩

/-- What a call of `dfs` does, from a stack that leaves room for `m` more packages. -/
def VisitSpec (g : PackageGraph) (m : ℕ) : Prop :=
  ∀ s v, Ok g s → g.nodes.length ≤ m + s.stack.length → v ∈ g.nodes →
  (∀ u ∈ s.stack.getLast?, g.Edge u v) → (s.color v = .white → SeenBefore g s (s.stack ++ [v])) →
  ∃ s', Extends g [v] s s' ∧ ∀ fuel > m, g.visit fuel v s = s'

/-- The loop over the imports of the package at the end of the stack. -/
theorem scan_spec {m : ℕ} (hvisit : VisitSpec g m) (hlast : t.getLast? = some v)
    (hroom : g.nodes.length ≤ m + t.length) :
    ∀ (ws ds : List Str) (s : Search), ds ++ ws = sorted (g.adjOf v) → Ok g s → s.stack = t →
    SeenBefore g s t →
      (∀ a ∈ ds, a ∈ g.nodes → s.color a ≠ .white) → ∃ s', Extends g ws s s' ∧ ∀ fuel > m,
      g.scan fuel ws s = s'
  | [], _, s, _, hs, _, _, _ => ⟨s, .refl hs, fun _ _ => rfl⟩
  | w :: ws, ds, s, hsplit, hs, hstack, hbefore, hdone => by
    have hmem : w ∈ g.adjOf v := mem_sorted.mp (hsplit ▸ List.mem_append_right _ List.mem_cons_self)
    have hnew : w ∉ ws := by
      have hnodup : (ds ++ w :: ws).Nodup := hsplit ▸ nodup_sorted (g.nodup_adjOf v)
      exact (List.nodup_cons.mp (List.nodup_append.mp hnodup).2.1).1
    obtain ⟨s₁, h₁, hrun⟩ : ∃ s₁, Extends g [w] s s₁ ∧ ∀ fuel > m,
        (if w ∈ g.nodes then g.visit fuel w s else s) = s₁ := by
      by_cases hnode : w ∈ g.nodes
      · have hedge : ∀ u ∈ s.stack.getLast?, g.Edge u w := fun u hu => by
          rw [hstack, hlast] at hu
          obtain rfl : v = u := by simpa using hu
          exact edge_iff.mpr ⟨hnode, hmem⟩
        have hchild : SeenBefore g s (s.stack ++ [w]) := by
          refine SeenBefore.child (hstack ▸ hbefore) hs (hstack ▸ hlast) fun a ha haw => ?_
          exact hdone a (mem_of_lt hsplit ha.2.2 haw) ha.2.1
        obtain ⟨s₁, h₁, hrun⟩ := hvisit s w hs (hstack ▸ hroom) hnode hedge fun _ => hchild
        exact ⟨s₁, h₁, fun fuel hfuel => by rw [if_pos hnode, hrun fuel hfuel]⟩
      · refine ⟨s, .skip hs (fun hmem => hnode (hs.simple.points w hmem)) fun h => absurd h hnode,
          fun fuel _ => if_neg hnode⟩
    obtain ⟨s', h', hrest⟩ :=
      scan_spec hvisit hlast hroom ws (ds ++ [w]) s₁ (by simpa using hsplit) h₁.ok
      (h₁.stack.trans hstack) (hbefore.mono h₁.seen) fun a ha hnode => by
        rcases List.mem_append.mp ha with ha | ha
        · exact h₁.seen a (hdone a ha hnode)
        · exact h₁.done a ha hnode
    refine ⟨s', .cons hs h₁ h' hnew, fun fuel hfuel => ?_⟩
    rw [scan, List.foldl_cons, hrun fuel hfuel]
    exact hrest fuel hfuel

/-- A package that has been seen: on the stack it closes a cycle. -/
theorem visit_seen (hs : Ok g s) (hv : s.color v ≠ .white) :
    ∃ s', Extends g [v] s s' ∧ ∀ fuel, g.visit (fuel + 1) v s = s' := by
  cases hcolor : s.color v with
  | white => exact absurd hcolor hv
  | black =>
    have hnew : v ∉ s.stack := fun hmem => by
      rw [(hs.gray v).mpr hmem] at hcolor
      cases hcolor
    exact ⟨s, .skip hs hnew fun _ => hv, fun fuel => visit_black hcolor⟩
  | gray =>
    have hmem : v ∈ s.stack := (hs.gray v).mp hcolor
    refine ⟨{ s with cycles := s.cycles ++ [s.stack.drop (s.stack.idxOf v)] },
      ⟨⟨hs.gray, hs.nodes, hs.closed, hs.simple, hs.tree, hs.seenTree⟩, rfl, fun _ =>
        id, by simpa using fun _ => hv,
      _, rfl, List.nodup_singleton _, fun c => ?_⟩, fun fuel => visit_gray hcolor⟩
    rw [List.mem_singleton]
    constructor
    · rintro rfl
      exact .inl ⟨v, List.mem_cons_self, hmem, rfl⟩
    · rintro (⟨w, hw, -, rfl⟩ | ⟨u, hwhite, hseen, -⟩)
      · rw [List.mem_singleton.mp hw]
      · exact absurd hwhite hseen

/-- **One call of `dfs`**, by the room that the stack leaves. -/
theorem visit_spec (g : PackageGraph) (m : ℕ) : VisitSpec g m := by
  induction m with
  | zero =>
    intro s v hs hroom hnode hedge hbefore
    by_cases hv : s.color v = .white
    · -- a new package would not fit on the stack
      obtain ⟨hsimple, -⟩ := isTree_push hs hv hnode hedge (hbefore hv)
      have hle := (hsimple.nodup.subperm hsimple.points).length_le
      rw [List.length_append, List.length_singleton] at hle
      omega
    · obtain ⟨s', h, hrun⟩ := visit_seen hs hv
      exact ⟨s', h, fun fuel hfuel => by rw [← hrun (fuel - 1), Nat.sub_add_cancel hfuel]⟩
  | succ m ih =>
    intro s v hs hroom hnode hedge hbefore
    by_cases hv : s.color v = .white
    · obtain ⟨hsimple, htree⟩ := isTree_push hs hv hnode hedge (hbefore hv)
      have hlength : (s.stack ++ [v]).length = s.stack.length + 1 := by simp
      have hpushed : SeenBefore g (push s v) (s.stack ++ [v]) := (hbefore hv).mono fun x hx => by
        show Function.update s.color v .gray x ≠ .white
        by_cases hxv : x = v
        · rw [hxv, Function.update_self]
          simp
        · rwa [Function.update_of_ne hxv]
      obtain ⟨s', h, hrun⟩ :=
        scan_spec ih List.getLast?_concat (by rw [hlength]; omega) (sorted (g.adjOf v)) []
        (push s v) (List.nil_append _) (ok_push hs hv hnode hsimple htree) rfl hpushed (by simp)
      refine ⟨finish s' v, extends_finish hs hv htree h, fun fuel hfuel => ?_⟩
      obtain ⟨fuel, rfl⟩ : ∃ k, fuel = k + 1 := ⟨fuel - 1, by omega⟩
      rw [visit_white hv, hrun fuel (by omega)]
    · obtain ⟨s', h, hrun⟩ := visit_seen hs hv
      exact ⟨s', h, fun fuel hfuel => by rw [← hrun (fuel - 1), Nat.sub_add_cancel (by omega)]⟩

/-- The loop over the packages. -/
theorem roots_spec (g : PackageGraph) : ∀ (ws ds : List Str) (s : Search),
    ds ++ ws = sorted g.nodes → Ok g s → s.stack = [] →
    (∀ a ∈ ds, s.color a ≠ .white) → ∃ s', Extends g ws s s' ∧
      ∀ fuel > g.nodes.length,
      ws.foldl (fun s v => if s.color v = .white then g.visit fuel v s else s) s = s'
  | [], _, s, _, hs, _, _ => ⟨s, .refl hs, fun _ _ => rfl⟩
  | v :: ws, ds, s, hsplit, hs, hstack, hdone => by
    have hnode : v ∈ g.nodes := mem_sorted.mp (hsplit ▸ List.mem_append_right _ List.mem_cons_self)
    have hnew : v ∉ ws := by
      have hnodup : (ds ++ v :: ws).Nodup := hsplit ▸ nodup_sorted g.nodup_nodes
      exact (List.nodup_cons.mp (List.nodup_append.mp hnodup).2.1).1
    obtain ⟨s₁, h₁, hrun⟩ : ∃ s₁, Extends g [v] s s₁ ∧
        ∀ fuel > g.nodes.length, (if s.color v = .white then g.visit fuel v s else s) = s₁ := by
      by_cases hv : s.color v = .white
      · have hbefore : SeenBefore g s (s.stack ++ [v]) := by
          -- a path that starts at an earlier package
          rintro p x hp hx ⟨r, a, b, p', q', hab, rfl, hq⟩
          rw [hstack, List.nil_append] at hq
          cases r with
          | cons c r => simp at hq
          | nil =>
            obtain ⟨rfl, -⟩ := List.cons.inj hq
            have ha : s.color a ≠ .white :=
              hdone a (mem_of_lt hsplit (hp.points a List.mem_cons_self) hab)
            exact hs.reached hp.chain (fun c hc => (show a = c by simpa using hc) ▸ ha)
              (by simp [hstack]) x (List.mem_of_getLast? hx)
        obtain ⟨s₁, h₁, hrun⟩ :=
          visit_spec g g.nodes.length s v hs (by omega) hnode (by simp [hstack]) fun _ => hbefore
        exact ⟨s₁, h₁, fun fuel hfuel => by rw [if_pos hv, hrun fuel hfuel]⟩
      · exact ⟨s, .skip hs (by simp [hstack]) fun _ => hv, fun fuel _ => if_neg hv⟩
    obtain ⟨s', h', hrest⟩ :=
      roots_spec g ws (ds ++ [v]) s₁ (by simpa using hsplit) h₁.ok (h₁.stack.trans hstack)
      fun a ha => by
      rcases List.mem_append.mp ha with ha | ha
      · exact h₁.seen a (hdone a ha)
      · exact h₁.done a ha (List.mem_singleton.mp ha ▸ hnode)
    refine ⟨s', .cons hs h₁ h' hnew, fun fuel hfuel => ?_⟩
    rw [List.foldl_cons, hrun fuel hfuel]
    exact hrest fuel hfuel

/-- The cycles that are returned: the ends of first paths that an edge closes, each once. The bound
on the depth is enough. -/
theorem detectCycles_spec (g : PackageGraph) :
    (∀ fuel > g.nodes.length, g.detectCyclesWith fuel = g.detectCycles) ∧
    g.detectCycles.Nodup ∧ (∀ c, c ∈ g.detectCycles ↔ ∃ u ∈ g.nodes, Found g u c) ∧
    ∀ x ∈ g.nodes, ∃ p, IsTree g.Edge g.Node p ∧ p.getLast? = some x := by
  have hstart : Ok g ⟨fun _ => .white, [], []⟩ := by
    refine ⟨by simp, by simp, by simp, ⟨.nil, by simp, List.nodup_nil⟩,
      ⟨fun q y hpre hlast => ?_⟩, by simp⟩
    rw [List.prefix_nil.mp hpre] at hlast
    cases hlast
  obtain ⟨s', h, hrun⟩ :=
    roots_spec g (sorted g.nodes) [] ⟨fun _ => .white, [], []⟩ (List.nil_append _) hstart
    rfl (by simp)
  have hcycles : ∀ fuel > g.nodes.length, g.detectCyclesWith fuel = s'.cycles := fun fuel hfuel =>
    congrArg Search.cycles (hrun fuel hfuel)
  have hall : g.detectCycles = s'.cycles := hcycles _ (Nat.lt_succ_self _)
  have hseen : ∀ x ∈ g.nodes, s'.color x ≠ .white := fun x hx => h.done x (mem_sorted.mpr hx) hx
  obtain ⟨new, hnew, hnodup, hmem⟩ := h.cycles
  obtain rfl : s'.cycles = new := hnew
  refine ⟨fun fuel hfuel => (hcycles fuel hfuel).trans hall.symm, hall ▸ hnodup, fun c => ?_,
    fun x hx => h.ok.seenTree x (hseen x hx)⟩
  rw [hall, hmem]
  constructor
  · rintro (⟨w, -, hw, -⟩ | ⟨u, -, hu, hfound⟩)
    · cases hw
    · exact ⟨u, h.ok.nodes u hu, hfound⟩
  · rintro ⟨u, hu, hfound⟩
    exact .inr ⟨u, rfl, hseen u hu, hfound⟩

/-! ## Cycles -/

/-- Every package has a first path, and its beginnings are first paths. -/
theorem isTree_of_isFirst {p : List Str} (h : IsFirst g.Edge g.Node p x) :
    IsTree g.Edge g.Node p := by
  obtain ⟨q, hq, hlast⟩ :=
    (detectCycles_spec g).2.2.2 x (h.simple.points x (List.mem_of_getLast? h.last))
  rwa [h.unique (hq.isFirst hlast)]

/-- **Which cycles are returned**: those that are the end of the first path to their last package.
-/
theorem mem_detectCycles :
    c ∈ g.detectCycles ↔ IsCycle g.Edge g.Node c ∧ ∃ p x, IsFirst g.Edge g.Node p x ∧ c <:+ p := by
  rw [(detectCycles_spec g).2.2.1]
  constructor
  · rintro ⟨u, -, p, w, hp, hlast, hw, hedge, rfl⟩
    have hsuffix : p.drop (p.idxOf w) <:+ p := List.drop_suffix _ _
    have hsimple := (hp.isFirst hlast).simple
    obtain ⟨r, hr⟩ := drop_idxOf hw
    refine ⟨⟨⟨hsimple.chain.drop _, fun x hx => hsimple.points x (hsuffix.subset hx),
      hsimple.nodup.sublist hsuffix.sublist⟩, w, u, ?_, ?_, hedge⟩, p, u, hp.isFirst hlast, hsuffix⟩
    · rw [hr]
      rfl
    · rw [getLast?_drop_idxOf hw, hlast]
  · rintro ⟨hc, p, x, hp, q, rfl⟩
    obtain ⟨w, u, hw, hu, hedge⟩ := hc.closed
    obtain ⟨r, rfl⟩ : ∃ r, c = w :: r := by
      cases c with
      | nil => cases hw
      | cons a r => exact ⟨r, by rw [show a = w by simpa using hw]⟩
    have hux : x = u := by
      have hlast := hp.last
      rw [List.getLast?_append, hu] at hlast
      simpa using hlast.symm
    subst hux
    have hnew : w ∉ q :=
      fun hmem => (List.nodup_append.mp hp.simple.nodup).2.2 w hmem w List.mem_cons_self rfl
    refine ⟨x, hedge.1, q ++ w :: r, w, isTree_of_isFirst hp, hp.last, by simp, hedge, ?_⟩
    rw [List.idxOf_append_of_notMem hnew, List.idxOf_cons_self, Nat.add_zero, List.drop_left]

/-- No cycles are returned iff there are none. -/
theorem detectCycles_eq_nil : g.detectCycles = [] ↔ Acyclic g.Edge := by
  constructor
  · intro hnil x hx
    obtain ⟨c, hc⟩ : ∃ c, IsCycle g.Edge g.Node c := exists_cycle (fun a b h => h.1) hx
    obtain ⟨u, w, p, hp, hlast, hw, hedge⟩ := exists_back_edge (detectCycles_spec g).2.2.2 hc
    have hmem := ((detectCycles_spec g).2.2.1 _).mpr ⟨u, hedge.1, p, w, hp, hlast, hw, hedge, rfl⟩
    rw [hnil] at hmem
    cases hmem
  · intro hacyclic
    rw [List.eq_nil_iff_forall_not_mem]
    intro c hc
    obtain ⟨x, hx⟩ := (mem_detectCycles.mp hc).1.transGen
    exact hacyclic x hx

/-- No two of the cycles are rotations of each other. -/
theorem eq_of_isRotated_of_mem {c c' : List Str} (hc : c ∈ g.detectCycles)
    (hc' : c' ∈ g.detectCycles) (h : c.IsRotated c') : c = c' := by
  obtain ⟨-, p, x, hp, hsuffix⟩ := mem_detectCycles.mp hc
  obtain ⟨-, p', x', hp', hsuffix'⟩ := mem_detectCycles.mp hc'
  exact eq_of_isRotated (isTree_of_isFirst hp) hsuffix (isTree_of_isFirst hp') hsuffix' h

end PackageGraph

end Plei
