import Mathlib

/-!
# Runs

A machine moves by events: `step s e` is the state after the event `e`, `none` where the event
cannot happen. A run is a list of events that can all happen, one after the other. Whatever is
left to chance (who moves, what fails, what the clock says) is in the events, so a fact about
every run is a fact about every interleaving.

* `run_induction` — what one step preserves holds of every run
* `run_invariant_along` — the same, where every step of the run meets a condition
-/

namespace Machine

variable {σ ε : Type*} (step : σ → ε → Option σ)

/-- The state after the events. -/
def run (s : σ) (es : List ε) : Option σ := es.foldlM step s

@[simp] theorem run_nil (s : σ) : run step s [] = some s := rfl

@[simp] theorem run_cons (s : σ) (e : ε) (es : List ε) :
    run step s (e :: es) = (step s e).bind (run step · es) := rfl

theorem run_append (s : σ) (es fs : List ε) :
    run step s (es ++ fs) = (run step s es).bind (run step · fs) := by
  simp [run, List.foldlM_append]

theorem run_concat (s : σ) (es : List ε) (e : ε) :
    run step s (es ++ [e]) = (run step s es).bind (step · e) := by
  rw [run_append]
  cases run step s es with
  | none => rfl
  | some t => simp

variable {step}

variable {s u : σ} {es : List ε} {I : σ → Prop}

/-- A run of one more event is a run and a step. -/
theorem run_concat_eq_some {e : ε} :
    run step s (es ++ [e]) = some u ↔ ∃ t, run step s es = some t ∧ step t e = some u := by
  rw [run_concat, Option.bind_eq_some_iff]

/-- **Induction along a run**: `P` may speak of the events so far and of the state. -/
theorem run_induction {P : List ε → σ → Prop} (h0 : P [] s)
    (hstep : ∀ es t e u, run step s es = some t → P es t → step t e = some u → P (es ++ [e]) u)
    (h : run step s es = some u) : P es u := by
  induction es using List.reverseRecOn generalizing u with
  | nil =>
    obtain rfl := Option.some.inj h
    exact h0
  | append_singleton es e ih =>
    obtain ⟨t, ht, hu⟩ := run_concat_eq_some.mp h
    exact hstep es t e u ht (ih ht) hu

/-- An invariant holds in every state reached. -/
theorem run_invariant (hstep : ∀ t e u, I t → step t e = some u → I u) (h0 : I s)
    (h : run step s es = some u) : I u :=
  run_induction (P := fun _ t => I t) h0 (fun _ t e u _ ht hu => hstep t e u ht hu) h

/-- A reflexive and transitive relation that every step keeps relates the ends of a run. -/
theorem run_rel {R : σ → σ → Prop} (hrefl : ∀ t, R t t) (htrans : ∀ t u v, R t u → R u v → R t v)
    (hstep : ∀ t e u, step t e = some u → R t u) (h : run step s es = some u) : R s u :=
  run_induction (P := fun _ t => R s t) (hrefl s)
    (fun _ t e u _ ht hu => htrans s t u ht (hstep t e u hu)) h

/-! ## Conditions along a run -/

/-- Every event meets `Q` in the state in which it happens. -/
def Along (step : σ → ε → Option σ) (Q : σ → ε → Prop) : σ → List ε → Prop
  | _, [] => True
  | s, e :: es => Q s e ∧ ∀ t, step s e = some t → Along step Q t es

instance instDecidableAlong {Q : σ → ε → Prop} [∀ s e, Decidable (Q s e)] : ∀ (s : σ) (es : List ε),
    Decidable (Along step Q s es)
  | _, [] => isTrue trivial
  | s, e :: es =>
    match h : step s e with
    | none =>
      decidable_of_iff (Q s e) ⟨fun hQ => ⟨hQ, fun t ht => by rw [h] at ht; cases ht⟩,
        fun hQ => hQ.1⟩
    | some t =>
      have : Decidable (Along step Q t es) := instDecidableAlong t es
      decidable_of_iff (Q s e ∧ Along step Q t es)
        ⟨fun hQ => ⟨hQ.1, fun u hu => Option.some.inj (h.symm.trans hu) ▸ hQ.2⟩, fun hQ =>
          ⟨hQ.1, hQ.2 t h⟩⟩

/-- An invariant that the steps of the run keep where they meet `Q`. -/
theorem run_invariant_along {Q : σ → ε → Prop}
    (hstep : ∀ e ∈ es, ∀ t u, I t → Q t e → step t e = some u → I u) (h0 : I s)
    (hQ : Along step Q s es) (h : run step s es = some u) : I u := by
  induction es generalizing s with
  | nil =>
    obtain rfl := Option.some.inj h
    exact h0
  | cons e es ih =>
    rw [run_cons, Option.bind_eq_some_iff] at h
    obtain ⟨t, ht, hu⟩ := h
    have htail : ∀ f ∈ es, ∀ t u, I t → Q t f → step t f = some u → I u := fun f hf =>
      hstep f (List.mem_cons_of_mem _ hf)
    exact ih htail (hstep e List.mem_cons_self s t h0 hQ.1 ht) (hQ.2 t ht) hu

/-- A condition that an invariant gives holds along every run. -/
theorem along_of_invariant {I : σ → Prop} {Q : σ → ε → Prop}
    (hstep : ∀ t e u, I t → step t e = some u → I u)
    (hQ : ∀ t e, I t → Q t e) : ∀ {s : σ} {es : List ε}, I s → Along step Q s es
  | _, [], _ => trivial
  | s, e :: _, h => ⟨hQ s e h, fun t ht => along_of_invariant hstep hQ (hstep s e t h ht)⟩

/-- A condition that every event of the run meets in every state. -/
theorem along_of_mem {Q : σ → ε → Prop} : ∀ {s : σ} {es : List ε}, (∀ e ∈ es, ∀ t, Q t e) →
    Along step Q s es
  | _, [], _ => trivial
  | s, _ :: _, h =>
    ⟨h _ List.mem_cons_self s, fun _ _ => along_of_mem fun e he => h e (List.mem_cons_of_mem _ he)⟩

/-- A condition along the first part of a run. -/
theorem along_initial {Q : σ → ε → Prop} : ∀ {s : σ} {es fs : List ε}, fs <+: es →
    Along step Q s es → Along step Q s fs
  | _, _, [], _, _ => trivial
  | _, [], _ :: _, h, _ => absurd (List.prefix_nil.mp h) (List.cons_ne_nil _ _)
  | s, e :: es, f :: fs, h, hQ => by
    obtain ⟨rfl, htail⟩ := List.cons_prefix_cons.mp h
    exact ⟨hQ.1, fun t ht => along_initial htail (hQ.2 t ht)⟩

/-- A weaker condition. -/
theorem along_mono {Q R : σ → ε → Prop} (h : ∀ t e, Q t e → R t e) : ∀ {s : σ} {es : List ε},
    Along step Q s es → Along step R s es
  | _, [], _ => trivial
  | s, e :: _, hQ => ⟨h s e hQ.1, fun t ht => along_mono h (hQ.2 t ht)⟩

/-- Two conditions along a run. -/
theorem along_and {Q R : σ → ε → Prop} : ∀ {s : σ} {es : List ε},
    Along step (fun t e => Q t e ∧ R t e) s es ↔ Along step Q s es ∧ Along step R s es
  | _, [] => by simp [Along]
  | _, _ :: _ => by
    simp only [Along, along_and]
    exact ⟨fun ⟨⟨hq, hr⟩, h⟩ => ⟨⟨hq, fun t ht => (h t ht).1⟩, hr, fun t ht => (h t ht).2⟩,
      fun ⟨⟨hq, h⟩, hr, h'⟩ => ⟨⟨hq, hr⟩, fun t ht => ⟨h t ht, h' t ht⟩⟩⟩

/-- A condition along a run that goes on by one event. -/
theorem along_concat {Q : σ → ε → Prop} {e : ε} : ∀ {s : σ} {es : List ε},
    Along step Q s (es ++ [e]) ↔ Along step Q s es ∧ ∀ t, run step s es = some t → Q t e
  | s, [] => by simp [Along]
  | _, _ :: _ => by
    simp only [List.cons_append, Along, run_cons, Option.bind_eq_some_iff, along_concat]
    constructor
    · rintro ⟨hf, hrest⟩
      exact ⟨⟨hf, fun t ht => (hrest t ht).1⟩, fun u ⟨t, ht, hu⟩ => (hrest t ht).2 u hu⟩
    · rintro ⟨⟨hf, hrest⟩, hlast⟩
      exact ⟨hf, fun t ht => ⟨hrest t ht, fun u hu => hlast u ⟨t, ht, hu⟩⟩⟩

/-- **A condition that is exact for one step is exact for a run**: `R` holds in every state on the
way exactly where every event meets `Q`. -/
theorem along_iff_reached {I R : σ → Prop} {Q : σ → ε → Prop} : ∀ {s : σ} {es : List ε},
    (∀ e ∈ es, ∀ t, I t → R t → ∃ u, step t e = some u ∧ I u ∧ (R u ↔ Q t e)) → I s → R s →
      ((∀ fs t, fs <+: es → run step s fs = some t → R t) ↔ Along step Q s es)
  | s, [], _, _, hR => by
    refine iff_of_true (fun fs t hfs ht => ?_) trivial
    rw [List.prefix_nil.mp hfs] at ht
    obtain rfl := Option.some.inj ht
    exact hR
  | s, e :: es, hstep, hI, hR => by
    obtain ⟨u, hu, hIu, hRu⟩ := hstep e List.mem_cons_self s hI hR
    have hrest : ∀ f ∈ es, ∀ t, I t → R t → ∃ u, step t f = some u ∧ I u ∧ (R u ↔ Q t f) :=
      fun f hf => hstep f (List.mem_cons_of_mem _ hf)
    constructor
    · intro h
      have hu' : R u :=
        h [e] u (List.prefix_cons_inj e |>.mpr (List.nil_prefix)) (by rw [run_cons, hu]; rfl)
      refine ⟨hRu.mp hu', fun t ht => ?_⟩
      obtain rfl := Option.some.inj (hu.symm.trans ht)
      refine (along_iff_reached hrest hIu hu').mp fun fs v hfs hv =>
        h (e :: fs) v ((List.prefix_cons_inj e).mpr hfs) ?_
      rw [run_cons, hu]
      exact hv
    · rintro ⟨hQ, hlater⟩ fs t hfs ht
      cases fs with
      | nil =>
        obtain rfl := Option.some.inj ht
        exact hR
      | cons f fs =>
        obtain ⟨rfl, htail⟩ := List.cons_prefix_cons.mp hfs
        rw [run_cons, hu] at ht
        exact (along_iff_reached hrest hIu (hRu.mpr hQ)).mpr (hlater u hu) fs t htail ht

/-- **A condition that is exact for what one step does is exact for a run**: `P` holds in every
state on the way, and `R` of any two of them, exactly where every event meets `Q`. -/
theorem along_iff_related {I P : σ → Prop} {R : σ → σ → Prop} {Q : σ → ε → Prop}
    (hrefl : ∀ t, R t t)
    (htrans : ∀ t u v, R t u → R u v → R t v) (hP : ∀ t, I t → P t) (hkeep : ∀ t e u, I t → Q t e →
      step t e = some u → I u)
    (hnone : ∀ t e, step t e = none → Q t e) (hstep : ∀ t e u, I t → step t e = some u →
      (Q t e ↔ P u ∧ R t u)) :
    ∀ {s : σ} {es : List ε}, I s →
      ((∀ fs gs t u, fs ++ gs <+: es → run step s fs = some t → run step t gs = some u → P u ∧
        R t u) ↔ Along step Q s es)
  | s, [], hI => by
    refine iff_of_true (fun fs gs t u hfs ht hu => ?_) trivial
    obtain ⟨rfl, rfl⟩ := List.append_eq_nil_iff.mp (List.prefix_nil.mp hfs)
    obtain rfl := Option.some.inj ht
    obtain rfl := Option.some.inj hu
    exact ⟨hP s hI, hrefl s⟩
  | s, e :: es, hI => by
    constructor
    · intro h
      -- the part that is the first step alone
      have hQ : Q s e := by
        rcases Option.eq_none_or_eq_some (step s e) with hnot | ⟨u, hu⟩
        · exact hnone s e hnot
        · refine (hstep s e u hI hu).mpr (h [] [e] s u ?_ rfl ?_)
          · exact (List.prefix_cons_inj e).mpr List.nil_prefix
          · rw [run_cons, hu]
            rfl
      refine ⟨hQ, fun t ht => ?_⟩
      refine (along_iff_related hrefl htrans hP hkeep hnone hstep (hkeep s e t hI hQ ht)).mp
        fun fs gs u v hfs hu hv => ?_
      refine h (e :: fs) gs u v ((List.prefix_cons_inj e).mpr hfs) ?_ hv
      rw [run_cons, ht]
      exact hu
    · rintro ⟨hQ, hrest⟩ fs gs t u hfs ht hu
      have htail : ∀ {v}, step s e = some v → ∀ fs gs t u, fs ++ gs <+: es →
        run step v fs = some t → run step t gs = some u → P u ∧ R t u := fun hv =>
        (along_iff_related hrefl htrans hP hkeep hnone hstep (hkeep s e _ hI hQ hv)).mpr
          (hrest _ hv)
      cases fs with
      | cons f fs =>
        rw [List.cons_append] at hfs
        obtain ⟨rfl, hrun⟩ := List.cons_prefix_cons.mp hfs
        rw [run_cons, Option.bind_eq_some_iff] at ht
        obtain ⟨v, hv, ht⟩ := ht
        exact htail hv fs gs t u hrun ht hu
      | nil =>
        obtain rfl := Option.some.inj ht
        cases gs with
        | nil =>
          obtain rfl := Option.some.inj hu
          exact ⟨hP s hI, hrefl s⟩
        | cons g gs =>
          obtain ⟨rfl, hgs⟩ := List.cons_prefix_cons.mp hfs
          rw [run_cons, Option.bind_eq_some_iff] at hu
          obtain ⟨v, hv, hu⟩ := hu
          -- the first step and the rest, put together
          obtain ⟨hPu, hRu⟩ := htail hv [] gs v u hgs rfl hu
          exact ⟨hPu, htrans s v u ((hstep s g v hI hv).mp hQ).2 hRu⟩

/-- A condition that an invariant gives where another one holds along the run. -/
theorem along_of_along {I : σ → Prop} {Q R : σ → ε → Prop} (hstep : ∀ t e u, I t → Q t e →
    step t e = some u → I u)
    (hR : ∀ t e, I t → Q t e → R t e) : ∀ {s : σ} {es : List ε}, I s → Along step Q s es →
    Along step R s es
  | _, [], _, _ => trivial
  | s, e :: _, hI, hQ =>
    ⟨hR s e hI hQ.1, fun t ht => along_of_along hstep hR (hstep s e t hI hQ.1 ht) (hQ.2 t ht)⟩

/-- An invariant that every event of the run keeps. -/
theorem run_invariant_mem (hstep : ∀ e ∈ es, ∀ t u, I t → step t e = some u → I u) (h0 : I s)
    (h : run step s es = some u) : I u := by
  refine run_invariant_along (Q := fun _ _ => True) (fun e he t u ht _ => hstep e he t u ht) h0 ?_ h
  exact along_of_mem fun _ _ _ => trivial

/-! ## Parties -/

/-- Of several parties, one goes on. -/
theorem mem_update {ι α : Type*} [DecidableEq ι] {f : ι → Option α} {i j : ι} {a b : α} :
    b ∈ Function.update f i (some a) j ↔ (j = i ∧ b = a) ∨ (j ≠ i ∧ b ∈ f j) := by
  by_cases hj : j = i
  · subst hj
    simp [Option.mem_def, eq_comm]
  · simp [hj]

end Machine
