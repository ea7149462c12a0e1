import Mathlib

/-!
# Paths and cycles

Paths of a relation, as the lists of what they pass. The least of the simple paths to a point, where
two paths are compared entry by entry, is the one by which a search in that order comes to it first.

* `exists_cycle` — where a walk comes back, there is a simple cycle
* `exists_back_edge` — a cycle has an edge that goes back along a first path
* `eq_of_isRotated` — parts of first paths that are rotations of each other are the same
-/

namespace Paths

open Relation

variable {α : Type*} {E : α → α → Prop} {N : α → Prop}

/-- A path of the relation that passes no point twice. -/
structure IsSimple (E : α → α → Prop) (N : α → Prop) (p : List α) : Prop where
  chain : p.IsChain E
  points : ∀ x ∈ p, N x
  nodup : p.Nodup

/-- A simple path, from whose last point a step leads to the first. -/
structure IsCycle (E : α → α → Prop) (N : α → Prop) (c : List α) : Prop extends IsSimple E N c where
  closed : ∃ a b, c.head? = some a ∧ c.getLast? = some b ∧ E b a

/-- The number of steps. -/
def edges (p : List α) : ℕ := p.length - 1

def Acyclic (E : α → α → Prop) : Prop := ∀ x, ¬ TransGen E x x

/-! ## Walks -/

theorem transGen_of_chain {p : List α} {a b : α} (hchain : (a :: p).IsChain E)
    (hlast : p.getLast? = some b) : TransGen E a b := by
  induction p generalizing a with
  | nil => cases hlast
  | cons c p ih =>
    have hstep : E a c := (List.isChain_cons_cons.mp hchain).1
    cases p with
    | nil =>
      obtain rfl : c = b := by simpa using hlast
      exact .single hstep
    | cons d p =>
      rw [List.getLast?_cons_cons] at hlast
      exact .head hstep (ih (List.isChain_cons_cons.mp hchain).2 hlast)

theorem IsCycle.transGen {c : List α} (h : IsCycle E N c) : ∃ x, TransGen E x x := by
  obtain ⟨a, b, ha, hb, hclose⟩ := h.closed
  cases c with
  | nil => cases ha
  | cons x p =>
    obtain rfl : x = a := by simpa using ha
    cases p with
    | nil =>
      obtain rfl : x = b := by simpa using hb
      exact ⟨x, .single hclose⟩
    | cons y p =>
      rw [List.getLast?_cons_cons] at hb
      exact ⟨x, (transGen_of_chain h.chain hb).tail hclose⟩

/-- A path from `x` that a step brings back to `x`. -/
theorem exists_walk {x y : α} (h : TransGen E x y) :
    ∃ p, (x :: p).IsChain E ∧ ∀ b ∈ (x :: p).getLast?, E b y := by
  induction h with
  | single hxy => exact ⟨[], .singleton _, fun b hb => by simp_all⟩
  | @tail b c _ hbc ih =>
    obtain ⟨p, hchain, hlast⟩ := ih
    refine ⟨p ++ [b], ?_, fun d hd => ?_⟩
    · rw [← List.cons_append]
      refine hchain.append (.singleton _) fun d hd e he => ?_
      obtain rfl : b = e := by simpa using he
      exact hlast d hd
    · rw [← List.cons_append, List.getLast?_concat] at hd
      obtain rfl : b = d := by simpa using hd
      exact hbc

/-- A list with an entry twice. -/
theorem exists_twice : ∀ {p : List α}, ¬ p.Nodup → ∃ l a m r, p = l ++ a :: (m ++ a :: r)
  | [], h => absurd List.nodup_nil h
  | a :: p, h => by
    by_cases hmem : a ∈ p
    · obtain ⟨m, r, rfl⟩ := List.append_of_mem hmem
      exact ⟨[], a, m, r, rfl⟩
    · obtain ⟨l, b, m, r, rfl⟩ := exists_twice fun hp => h (List.nodup_cons.mpr ⟨hmem, hp⟩)
      exact ⟨a :: l, b, m, r, rfl⟩

theorem points_of_chain {p : List α} (hN : ∀ a b, E a b → N a) (hchain : p.IsChain E)
    (hlast : ∀ b ∈ p.getLast?, N b) : ∀ x ∈ p, N x := by
  induction p with
  | nil => simp
  | cons a p ih =>
    cases p with
    | nil =>
      intro x hx
      obtain rfl := List.mem_singleton.mp hx
      exact hlast x rfl
    | cons b p =>
      obtain ⟨hab, hchain⟩ := List.isChain_cons_cons.mp hchain
      rw [List.getLast?_cons_cons] at hlast
      intro x hx
      rcases List.mem_cons.mp hx with rfl | hx
      · exact hN _ _ hab
      · exact ih hchain hlast x hx

/-- **Where a walk comes back, there is a simple cycle.** -/
theorem exists_cycle {x : α} (hN : ∀ a b, E a b → N a) (h : TransGen E x x) :
    ∃ c, IsCycle E N c := by
  obtain ⟨p, hchain, hlast⟩ := exists_walk h
  clear h
  -- by the length of the walk: one that passes a point twice has a shorter one in it
  generalize hn : (x :: p).length = n
  induction n using Nat.strong_induction_on generalizing x p with
  | _ n ih =>
    by_cases hnodup : (x :: p).Nodup
    · obtain ⟨b, hb⟩ : ∃ b, (x :: p).getLast? = some b :=
        ⟨_, List.getLast?_eq_some_getLast (List.cons_ne_nil x p)⟩
      exact ⟨x :: p, ⟨hchain, points_of_chain hN hchain fun b hb => hN _ _ (hlast b hb), hnodup⟩, x,
        b, rfl, hb, hlast b hb⟩
    · obtain ⟨l, a, m, r, hp⟩ := exists_twice hnodup
      have hmid : (a :: (m ++ a :: r)).IsChain E := (hp ▸ hchain).right_of_append
      have hsplit : ((a :: m) ++ a :: r).IsChain E := hmid
      have hwalk : (a :: m).IsChain E := hsplit.left_of_append
      have hback : ∀ b ∈ (a :: m).getLast?, E b a := fun b hb =>
        (List.isChain_append.mp (show (a :: m ++ a :: r).IsChain E from hmid)).2.2 b hb a rfl
      have hlength := congrArg List.length hp
      simp only [List.length_append, List.length_cons] at hlength hn
      exact ih (a :: m).length (by rw [List.length_cons]; omega) m hwalk hback rfl

/-- A path in a relation without cycles is simple. -/
theorem nodup_of_acyclic {p : List α} (hacyclic : Acyclic E) (hchain : p.IsChain E) : p.Nodup := by
  by_contra hnodup
  obtain ⟨l, a, m, r, rfl⟩ := exists_twice hnodup
  have hmid : (a :: (m ++ a :: r)).IsChain E := hchain.right_of_append
  have hwalk : (a :: (m ++ [a])).IsChain E := by
    have hsplit : a :: (m ++ a :: r) = a :: (m ++ [a]) ++ r := by simp
    exact (hsplit ▸ hmid).left_of_append
  exact hacyclic a (transGen_of_chain hwalk (by simp))

/-- Where every point of a finite set has one before it in the set, there is a cycle. -/
theorem exists_source {s : List α} (hacyclic : Acyclic E) (hs : s ≠ []) :
    ∃ x ∈ s, ∀ y ∈ s, ¬ E y x := by
  let above : {a // a ∈ s} → {a // a ∈ s} → Prop := fun a b => TransGen E a.1 b.1
  have htrans : IsTrans _ above := ⟨fun a b c hab hbc => hab.trans hbc⟩
  have hirrefl : Std.Irrefl above := ⟨fun a haa => hacyclic a.1 haa⟩
  have hfinite : Finite {a // a ∈ s} := (List.finite_toSet s).to_subtype
  have hwf : WellFounded above := Finite.wellFounded_of_trans_of_irrefl above
  obtain ⟨a, ha⟩ := List.exists_mem_of_ne_nil s hs
  obtain ⟨⟨x, hx⟩, -, hmin⟩ := hwf.has_min Set.univ ⟨⟨a, ha⟩, trivial⟩
  exact ⟨x, hx, fun y hy hstep => hmin ⟨y, hy⟩ trivial (.single hstep)⟩

/-- What is reached from a point of a set without passing a barrier is in the set, where steps lead
out at the barrier only. -/
theorem mem_of_closed {S T : α → Prop} {p : List α} (hclosed : ∀ x y, S x → ¬ T x → E x y → S y)
    (hchain : p.IsChain E)
    (hhead : ∀ a ∈ p.head?, S a) (hfree : ∀ x ∈ p, ¬ T x) : ∀ x ∈ p, S x := by
  induction p with
  | nil => simp
  | cons a p ih =>
    have ha : S a := hhead a rfl
    have hp : ∀ x ∈ p, S x := by
      refine ih hchain.tail (fun b hb => ?_) fun x hx => hfree x (List.mem_cons_of_mem _ hx)
      cases p with
      | nil => cases hb
      | cons c p =>
        obtain rfl : c = b := by simpa using hb
        exact hclosed a c ha (hfree a List.mem_cons_self) (List.isChain_cons_cons.mp hchain).1
    intro x hx
    rcases List.mem_cons.mp hx with rfl | hx
    · exact ha
    · exact hp x hx

theorem eq_of_prefix_of_last {p q : List α} {x : α} (hpre : p <+: q) (hq : q.Nodup)
    (hp : p.getLast? = some x) (hlast : q.getLast? = some x) : p = q := by
  obtain ⟨r, rfl⟩ := hpre
  rcases List.eq_nil_or_concat r with rfl | ⟨r, y, rfl⟩
  · rw [List.append_nil]
  · rw [List.concat_eq_append, ← List.append_assoc, List.getLast?_concat, Option.some.injEq]
      at hlast
    subst hlast
    have hmem : y ∈ p := List.mem_of_getLast? hp
    have hdisjoint := (List.nodup_append.mp hq).2.2 y hmem y (by simp)
    exact absurd rfl hdisjoint

/-! ## Comparing paths -/

section Compare

variable [LinearOrder α] {p q r : List α} {x y : α}

/-- At the first place where they differ, `p` has the smaller entry. -/
def Before (p q : List α) : Prop := ∃ r a b p' q', a < b ∧ p = r ++ a :: p' ∧ q = r ++ b :: q'

theorem Before.lt (h : Before p q) : p < q := by
  obtain ⟨r, a, b, p', q', hab, rfl, rfl⟩ := h
  exact List.append_left_lt (show a :: p' < b :: q' from List.Lex.rel hab)

theorem Before.append_left (h : Before p q) (r : List α) : Before (p ++ r) q := by
  obtain ⟨s, a, b, p', q', hab, rfl, rfl⟩ := h
  exact ⟨s, a, b, p' ++ r, q', hab, by simp, rfl⟩

theorem compare_paths (p q : List α) : p <+: q ∨ q <+: p ∨ Before p q ∨ Before q p := by
  induction p generalizing q with
  | nil => exact .inl (List.nil_prefix)
  | cons a p ih =>
    cases q with
    | nil => exact .inr (.inl List.nil_prefix)
    | cons b q =>
      rcases lt_trichotomy a b with h | rfl | h
      · exact .inr (.inr (.inl ⟨[], a, b, p, q, h, rfl, rfl⟩))
      · have hcons : ∀ {p q : List α}, Before p q → Before (a :: p) (a :: q) := by
          rintro _ _ ⟨s, c, d, p', q', hcd, rfl, rfl⟩
          exact ⟨a :: s, c, d, p', q', hcd, rfl, rfl⟩
        rcases ih q with h | h | h | h
        · exact .inl (List.cons_prefix_cons.mpr ⟨rfl, h⟩)
        · exact .inr (.inl (List.cons_prefix_cons.mpr ⟨rfl, h⟩))
        · exact .inr (.inr (.inl (hcons h)))
        · exact .inr (.inr (.inr (hcons h)))
      · exact .inr (.inr (.inr ⟨[], b, a, q, p, h, rfl, rfl⟩))

theorem lt_of_prefix (h : p <+: q) (hne : p ≠ q) : p < q := by
  obtain ⟨r, rfl⟩ := h
  induction p with
  | nil =>
    cases r with
    | nil => exact absurd rfl hne
    | cons b r => exact List.Lex.nil
  | cons a p ih => exact List.Lex.cons (ih fun heq => hne (by rw [List.cons_append, ← heq]))

/-- Between a path and one that goes on from it are only those that go on from it. -/
theorem prefix_of_between (h : p ≤ q) (h' : q ≤ p ++ r) : p <+: q := by
  rcases compare_paths p q with hpre | hpre | hbefore | hbefore
  · exact hpre
  · by_cases heq : q = p
    · rw [heq]
    · exact absurd ( lt_of_prefix hpre heq) (not_lt.mpr h)
  · exact absurd (hbefore.append_left r).lt (not_lt.mpr h')
  · exact absurd hbefore.lt (not_lt.mpr h)

/-- The least simple path to a point, entry by entry. -/
structure IsFirst (E : α → α → Prop) (N : α → Prop) (p : List α) (x : α) : Prop where
  simple : IsSimple E N p
  last : p.getLast? = some x
  least : ∀ q, IsSimple E N q → q.getLast? = some x → p ≤ q

theorem IsFirst.unique (h : IsFirst E N p x) (h' : IsFirst E N q x) : p = q :=
  le_antisymm (h.least q h'.simple h'.last) (h'.least p h.simple h.last)

/-- A simple path is the first one where no path that goes another way earlier leads to its last
point. -/
theorem isFirst_of_before (hq : IsSimple E N q) (hlast : q.getLast? = some x)
    (h : ∀ p, IsSimple E N p → p.getLast? = some x → ¬ Before p q) : IsFirst E N q x := by
  refine ⟨hq, hlast, fun p hp hp' => ?_⟩
  rcases compare_paths p q with hpre | hpre | hbefore | hbefore
  · exact (eq_of_prefix_of_last hpre hq.nodup hp' hlast).ge
  · exact (eq_of_prefix_of_last hpre hp.nodup hlast hp').le
  · exact absurd hbefore (h p hp hp')
  · exact hbefore.lt.le

/-- A path whose beginnings are all first. -/
structure IsTree (E : α → α → Prop) (N : α → Prop) (p : List α) : Prop where
  first : ∀ q y, q <+: p → q.getLast? = some y → IsFirst E N q y

theorem IsTree.isFirst (h : IsTree E N p) (hlast : p.getLast? = some x) : IsFirst E N p x :=
  h.first p x (List.prefix_refl p) hlast

/-- The beginning of a first path that ends in one of its points. -/
theorem IsTree.mem (h : IsTree E N p) (hx : x ∈ p) : ∃ q, q <+: p ∧ IsFirst E N q x := by
  obtain ⟨l, r, rfl⟩ := List.append_of_mem hx
  have hpre : l ++ [x] <+: l ++ x :: r := ⟨r, by simp⟩
  exact ⟨l ++ [x], hpre, h.first _ x hpre List.getLast?_concat⟩

end Compare

/-! ## Cycles and first paths -/

theorem IsCycle.rotate {l r : List α} (h : IsCycle E N (l ++ r)) : IsCycle E N (r ++ l) := by
  cases l with
  | nil => simpa using h
  | cons a l =>
    cases r using List.reverseRecOn with
    | nil => simpa using h
    | append_singleton r b =>
      obtain ⟨a', b', ha, hb, hclose⟩ := h.closed
      obtain rfl : a = a' := by simpa using ha
      obtain rfl : b = b' := by
        rw [← List.append_assoc, List.getLast?_concat, Option.some.injEq] at hb
        exact hb
      obtain ⟨hleft, hright, hmid⟩ := List.isChain_append.mp h.chain
      refine ⟨⟨?_, fun x hx => h.points x ?_, ?_⟩, ?_⟩
      · refine List.isChain_append.mpr ⟨hright, hleft, fun x hx y hy => ?_⟩
        rw [List.getLast?_concat] at hx
        obtain rfl : b = x := by simpa using hx
        obtain rfl : a = y := by simpa using hy
        exact hclose
      · rw [List.mem_append] at hx ⊢
        exact hx.symm
      · exact List.perm_append_comm.nodup_iff.mp h.nodup
      · obtain ⟨x, hx⟩ : ∃ x, (a :: l).getLast? = some x :=
          ⟨_, List.getLast?_eq_some_getLast (List.cons_ne_nil a l)⟩
        obtain ⟨y, hy⟩ : ∃ y, (r ++ [b]).head? = some y := by
          cases r <;> exact ⟨_, rfl⟩
        refine ⟨y, x, ?_, ?_, hmid x hx y hy⟩
        · rw [List.head?_append, hy]
          rfl
        · rw [List.getLast?_append, hx]
          rfl

section Trees

variable [LinearOrder α]

/-- **A cycle has an edge that goes back along a first path**: the one to the point whose first path
is the least. -/
theorem exists_back_edge {c : List α} (htree : ∀ x, N x → ∃ p, IsTree E N p ∧ p.getLast? = some x)
    (hc : IsCycle E N c) : ∃ u w p, IsTree E N p ∧ p.getLast? = some u ∧ w ∈ p ∧ E u w := by
  choose! f hf using htree
  have hfirst : ∀ x ∈ c, IsFirst E N (f x) x :=
    fun x hx => (hf x (hc.points x hx)).1.isFirst (hf x (hc.points x hx)).2
  have hne : c.toFinset.Nonempty := by
    obtain ⟨a, -, ha, -⟩ := hc.closed
    exact ⟨a, List.mem_toFinset.mpr (List.mem_of_mem_head? ha)⟩
  obtain ⟨w, hw, hmin⟩ := Finset.exists_min_image c.toFinset f hne
  rw [List.mem_toFinset] at hw
  obtain ⟨l, r, rfl⟩ := List.append_of_mem hw
  -- the cycle from `w` on
  have hcycle : IsCycle E N (w :: (r ++ l)) := by
    have := hc.rotate
    rwa [List.cons_append] at this
  obtain ⟨_, u, ha, hu, hclose⟩ := hcycle.closed
  obtain rfl : w = _ := by simpa using ha
  have hmem : ∀ z ∈ w :: (r ++ l), z ∈ l ++ w :: r := fun z hz => by
    simp only [List.mem_cons, List.mem_append] at hz ⊢
    tauto
  have huc : u ∈ l ++ w :: r := hmem u (List.mem_of_getLast? hu)
  obtain ⟨g, hg⟩ : ∃ g, f w = g ++ [w] := by
    obtain ⟨g, hg⟩ := List.getLast?_eq_some_iff.mp (hfirst w hw).last
    exact ⟨g, hg⟩
  have hsimple : IsSimple E N (f w ++ (r ++ l)) := by
    refine ⟨?_, fun z hz => ?_, ?_⟩
    · have hover :=
        List.IsChain.append_overlap (hg ▸ (hfirst w hw).simple.chain)
        (show ([w] ++ (r ++ l)).IsChain E from hcycle.chain) (List.cons_ne_nil w [])
      rwa [← hg] at hover
    · rcases List.mem_append.mp hz with hz | hz
      · exact (hfirst w hw).simple.points z hz
      · exact hcycle.points z (List.mem_cons_of_mem _ hz)
    · refine List.nodup_append.mpr
        ⟨(hfirst w hw).simple.nodup, (List.nodup_cons.mp hcycle.nodup).2, ?_⟩
      rintro z hz z' hz' rfl
      -- its first path would be the beginning of that of `w`
      obtain ⟨q, hpre, hq⟩ := (hf w (hc.points w hw)).1.mem hz
      have hzc := hmem z (List.mem_cons_of_mem _ hz')
      have hqz : q = f z := hq.unique (hfirst z hzc)
      have hzw : z ≠ w := fun heq => (List.nodup_cons.mp hcycle.nodup).1 (heq ▸ hz')
      have hne : q ≠ f w :=
        fun heq => hzw (Option.some.inj (hq.last.symm.trans (heq ▸ (hfirst w hw).last)))
      exact absurd (hmin z (List.mem_toFinset.mpr hzc)) (not_le.mpr (hqz ▸ lt_of_prefix hpre hne))
  have hlast : (f w ++ (r ++ l)).getLast? = some u := by
    rw [hg, List.append_assoc, List.getLast?_append, show ([w] ++ (r ++ l)).getLast? =
      some u from hu]
    rfl
  have hpre : f w <+: f u :=
    prefix_of_between (hmin u (List.mem_toFinset.mpr huc)) ((hfirst u huc).least _ hsimple hlast)
  have hwf : w ∈ f u := hpre.subset (List.mem_of_getLast? (hfirst w hw).last)
  exact ⟨u, w, f u, (hf u (hc.points u huc)).1, (hfirst u huc).last, hwf, hclose⟩

/-- How far a point is along its first path. -/
def Depth (E : α → α → Prop) (N : α → Prop) (x : α) (n : ℕ) : Prop :=
  ∃ p, IsFirst E N p x ∧ p.length = n

theorem Depth.unique {x : α} {m n : ℕ} (h : Depth E N x m) (h' : Depth E N x n) : m = n := by
  obtain ⟨p, hp, rfl⟩ := h
  obtain ⟨q, hq, rfl⟩ := h'
  rw [hp.unique hq]

theorem IsTree.pairwise {p : List α} (h : IsTree E N p) :
    p.Pairwise fun a b => ∃ m n, Depth E N a m ∧ Depth E N b n ∧ m < n := by
  have hdepth : ∀ i (hi : i < p.length), Depth E N (p.get ⟨i, hi⟩) (i + 1) := by
    intro i hi
    have hpre : p.take (i + 1) <+: p := List.take_prefix _ _
    refine ⟨p.take (i + 1), h.first _ _ hpre ?_, by rw [List.length_take]; omega⟩
    rw [List.take_succ_eq_append_getElem hi, List.getLast?_concat]
    rfl
  rw [List.pairwise_iff_getElem]
  exact fun i j hi hj hij => ⟨i + 1, j + 1, hdepth i hi, hdepth j hj, by omega⟩

/-- **Parts of first paths that are rotations of each other are the same.** -/
theorem eq_of_isRotated {c c' p p' : List α} (hp : IsTree E N p) (hc : c <:+ p)
    (hp' : IsTree E N p') (hc' : c' <:+ p') (h : c.IsRotated c') : c = c' := by
  refine List.Perm.eq_of_pairwise (fun a b _ _ hab hba => ?_) (hp.pairwise.sublist hc.sublist)
    (hp'.pairwise.sublist hc'.sublist) h.perm
  obtain ⟨m, n, hm, hn, hlt⟩ := hab
  obtain ⟨n', m', hn', hm', hlt'⟩ := hba
  have h1 := hm.unique hm'
  have h2 := hn.unique hn'
  omega

end Trees

end Paths
