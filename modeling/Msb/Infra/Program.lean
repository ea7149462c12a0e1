import Msb.Infra.Run

/-!
# Programs and pools of calls

A program is a tree: it has returned, or it asks for a call and goes on with the answer. What a call
does is left to a handler. A pool runs any number of programs over one shared state, one call at a
time, in any order; a program may stop anywhere, for good.

A protocol says which calls a program may make in which stage, and which stage an answer leads to.
A program that follows a protocol does so in every pool, so that a fact about a pool is proved from
the protocol, call by call, without a look at the programs.

* `ensures_bind`, `ensures_tryCatch` — what programs in a row do
* `pool_invariant` — what every permitted call keeps holds in every state of a pool
* `moving_invariant` — the same of one program, in a world that also moves by itself
* `Act.Passes.bind` — where a program can fail, and what it leaves there
-/

namespace Machine

/-- A program with calls `κ`; the call `c` is answered by a `ρ c`. -/
inductive Prog (κ : Type) (ρ : κ → Type) (α : Type) : Type where
  | done (a : α)
  | ask (c : κ) (next : ρ c → Prog κ ρ α)

namespace Prog

variable {κ α β : Type} {ρ : κ → Type}

def bind : Prog κ ρ α → (α → Prog κ ρ β) → Prog κ ρ β
  | done a, f => f a
  | ask c next, f => ask c fun r => (next r).bind f

instance : Monad (Prog κ ρ) where
  pure := done
  bind := bind

/-- Every call that the program can make is a `P`. -/
def All (P : κ → Prop) : Prog κ ρ α → Prop
  | done _ => True
  | ask c next => P c ∧ ∀ r, (next r).All P

theorem All.bind {P : κ → Prop} {f : α → Prog κ ρ β} : ∀ {x : Prog κ ρ α}, x.All P →
    (∀ a, (f a).All P) → (x.bind f).All P
  | done a, _, hf => hf a
  | ask _ _, hx, hf => ⟨hx.1, fun r => (hx.2 r).bind hf⟩

theorem all_true : ∀ x : Prog κ ρ α, x.All fun _ => True
  | done _ => trivial
  | ask _ next => ⟨trivial, fun r => all_true (next r)⟩

end Prog

/-! ## Protocols -/

/-- Which calls are allowed in a stage, and the stage after the answer. -/
structure Protocol (κ : Type) (ρ : κ → Type) (τ : Type) where
  allowed : τ → κ → Prop
  next : τ → (c : κ) → ρ c → τ

section

variable {κ τ α β : Type} {ρ : κ → Type} {A : Protocol κ ρ τ}

/-- From the stage `t` on the program makes allowed calls only, and it returns a value and a stage
of which `Q` holds. -/
def Prog.Ensures (A : Protocol κ ρ τ) : Prog κ ρ α → τ → (α → τ → Prop) → Prop
  | .done a, t, Q => Q a t
  | .ask c next, t, Q => A.allowed t c ∧ ∀ r, (next r).Ensures A (A.next t c r) Q

theorem Prog.Ensures.mono {Q R : α → τ → Prop} (h : ∀ a t, Q a t → R a t) :
    ∀ {x : Prog κ ρ α} {t : τ}, x.Ensures A t Q → x.Ensures A t R
  | .done a, t, hx => h a t hx
  | .ask _ _, _, hx => ⟨hx.1, fun r => (hx.2 r).mono h⟩

theorem Prog.ensures_bind {f : α → Prog κ ρ β} {Q : β → τ → Prop} : ∀ {x : Prog κ ρ α} {t : τ},
    (x.bind f).Ensures A t Q ↔ x.Ensures A t fun a t => (f a).Ensures A t Q
  | .done _, _ => Iff.rfl
  | .ask _ _, _ => and_congr_right fun _ => forall_congr' fun _ => ensures_bind

/-- Calls that are allowed in every stage of a kind, and that lead to a stage of the kind. -/
theorem Prog.All.ensures {P : κ → Prop} {I : τ → Prop}
    (hI : ∀ t c, I t → P c → A.allowed t c ∧ ∀ r, I (A.next t c r)) :
    ∀ {x : Prog κ ρ α} {t : τ}, x.All P → I t → x.Ensures A t fun _ t => I t
  | .done _, _, _, ht => ht
  | .ask c _, t, hx, ht =>
    ⟨(hI t c ht hx.1).1, fun r => Prog.All.ensures hI (hx.2 r) ((hI t c ht hx.1).2 r)⟩

end

/-! ## Programs with local variables and exceptions -/

/-- A program that may raise, with local variables that keep what was written before it raised. -/
def Act (κ : Type) (ρ : κ → Type) (ε l α : Type) : Type := l → Prog κ ρ (Except ε α × l)

namespace Act

variable {κ ε l α β : Type} {ρ : κ → Type}

def ret (a : α) : Act κ ρ ε l α := fun x => .done (.ok a, x)

def raise (e : ε) : Act κ ρ ε l α := fun x => .done (.error e, x)

/-- What follows a value and what follows an exception. -/
def andThen (act : Act κ ρ ε l α) (f : α → Act κ ρ ε l β) (g : ε → Act κ ρ ε l β) : Act κ ρ ε l β :=
  fun x =>
  Prog.bind (act x) fun out =>
    match out.1 with
    | .ok a => f a out.2
    | .error e => g e out.2

instance : Monad (Act κ ρ ε l) where
  pure := ret
  bind act f := act.andThen f raise

instance : MonadExceptOf ε (Act κ ρ ε l) where
  throw := raise
  tryCatch act g := act.andThen ret g

/-- The local variables. -/
def locals : Act κ ρ ε l l := fun x => .done (.ok x, x)

def setLocals (f : l → l) : Act κ ρ ε l Unit := fun x => .done (.ok (), f x)

def lift (x : Except ε α) : Act κ ρ ε l α := fun y => .done (x, y)

/-- A call whose answer may be an exception. -/
def call {r : κ → Type} (c : κ) : Act κ (fun c => Except ε (r c)) ε l (r c) := fun x =>
  .ask c fun answer => .done (answer, x)

/-! ### What it does -/

section

variable {τ : Type} {A : Protocol κ ρ τ} {act : Act κ ρ ε l α} {x : l} {t : τ}

def Ensures (A : Protocol κ ρ τ) (act : Act κ ρ ε l α) (x : l) (t : τ)
    (Q : Except ε α → l → τ → Prop) : Prop :=
  (act x).Ensures A t fun out t => Q out.1 out.2 t

theorem Ensures.mono {Q R : Except ε α → l → τ → Prop} (hact : act.Ensures A x t Q)
    (h : ∀ out y t, Q out y t → R out y t) : act.Ensures A x t R :=
  Prog.Ensures.mono (fun _ _ => h _ _ _) hact

theorem ensures_andThen {f : α → Act κ ρ ε l β} {g : ε → Act κ ρ ε l β}
    {Q : Except ε β → l → τ → Prop} (hact : act.Ensures A x t fun out y t =>
      (∀ a, out = .ok a → (f a).Ensures A y t Q) ∧ ∀ e, out = .error e → (g e).Ensures A y t Q) :
    (act.andThen f g).Ensures A x t Q := by
  refine Prog.ensures_bind.mpr (Prog.Ensures.mono ?_ hact)
  rintro ⟨out, y⟩ t ⟨hf, hg⟩
  cases out with
  | ok a => exact hf a rfl
  | error e => exact hg e rfl

/-- **A program and what follows its value.** -/
theorem ensures_bind {f : α → Act κ ρ ε l β} {Q : Except ε β → l → τ → Prop}
    (hact : act.Ensures A x t fun out y t =>
      (∀ a, out = .ok a → (f a).Ensures A y t Q) ∧ ∀ e, out = .error e → Q (.error e) y t) :
    (act >>= f).Ensures A x t Q :=
  ensures_andThen hact

/-- **A program and what follows its exception.** -/
theorem ensures_tryCatch {g : ε → Act κ ρ ε l α} {Q : Except ε α → l → τ → Prop}
    (hact : act.Ensures A x t fun out y t =>
      (∀ a, out = .ok a → Q (.ok a) y t) ∧ ∀ e, out = .error e → (g e).Ensures A y t Q) :
    (tryCatch act g).Ensures A x t Q :=
  ensures_andThen hact

theorem ensures_lift {out : Except ε α} {Q : Except ε α → l → τ → Prop} (h : Q out x t) :
    (lift out : Act κ ρ ε l α).Ensures A x t Q := h

theorem ensures_call {r : κ → Type} {A : Protocol κ (fun c => Except ε (r c)) τ} {c : κ}
    {Q : Except ε (r c) → l → τ → Prop} (hc : A.allowed t c)
    (h : ∀ answer, Q answer x (A.next t c answer)) :
    (call c : Act κ (fun c => Except ε (r c)) ε l (r c)).Ensures A x t Q :=
  ⟨hc, h⟩

/-- A program whose calls are all of a kind. -/
def All (P : κ → Prop) (act : Act κ ρ ε l α) : Prop := ∀ x, (act x).All P

variable {P : κ → Prop}

theorem All.andThen {f : α → Act κ ρ ε l β} {g : ε → Act κ ρ ε l β} (hact : act.All P)
    (hf : ∀ a, (f a).All P)
    (hg : ∀ e, (g e).All P) : (act.andThen f g).All P := fun x => (hact x).bind fun out => by
  rcases out with ⟨_ | _, y⟩
  · exact hg _ y
  · exact hf _ y

theorem All.bind {f : α → Act κ ρ ε l β} (hact : act.All P) (hf : ∀ a, (f a).All P) :
    (act >>= f).All P :=
  hact.andThen hf fun _ _ => trivial

theorem All.tryCatch {g : ε → Act κ ρ ε l α} (hact : act.All P) (hg : ∀ e, (g e).All P) :
    (tryCatch act g : Act κ ρ ε l α).All P :=
  hact.andThen (fun _ _ => trivial) hg

theorem all_call {r : κ → Type} {c : κ} (hc : P c) :
    (call c : Act κ (fun c => Except ε (r c)) ε l (r c)).All P :=
  fun _ => ⟨hc, fun _ => trivial⟩

/-- The rule of `Prog.All.ensures`, with nothing known of the value. -/
theorem All.ensures {I : τ → Prop} {Q : Except ε α → l → τ → Prop} (hact : act.All P)
    (hI : ∀ t c, I t → P c → A.allowed t c ∧ ∀ r, I (A.next t c r)) (ht : I t)
    (h : ∀ out y t, I t → Q out y t) : act.Ensures A x t Q := by
  have hall := Prog.All.ensures (A := A) hI (hact x) ht
  exact hall.mono fun out t => h out.1 out.2 t

end

end Act

/-! ## Pools -/

/-- A call of a service that has not returned. -/
structure Active (ω κ : Type) (ρ : κ → Type) (α : Type) where
  request : ω
  rest : Prog κ ρ α

/-- A call that was answered, and the shared state right before it. -/
structure Answered (ω κ : Type) (ρ : κ → Type) (σ : Type) where
  request : ω
  before : σ
  call : κ
  answer : ρ call

/-- The shared state, what runs in each slot, and a history of the answers. -/
structure Pool (ι ω κ : Type) (ρ : κ → Type) (α σ : Type) where
  shared : σ
  active : ι → Option (Active ω κ ρ α)
  trace : List (Answered ω κ ρ σ)

inductive PoolEvent (ι ω η : Type) where
  | start (i : ι) (request : ω)
  | answer (i : ι) (env : η)
  /-- The program in the slot has returned, or its process has died. -/
  | stop (i : ι)

section

variable {ι ω κ α σ η τ : Type} {ρ : κ → Type} [DecidableEq ι]

def Pool.init (s : σ) : Pool ι ω κ ρ α σ := ⟨s, fun _ => none, []⟩

def poolStep (program : ω → Prog κ ρ α) (handle : σ → (c : κ) → η → ρ c × σ)
    (s : Pool ι ω κ ρ α σ) : PoolEvent ι ω η → Option (Pool ι ω κ ρ α σ)
  | .start i request =>
    match s.active i with
    | some _ => none
    | none => some { s with active := Function.update s.active i (some ⟨request, program request⟩) }
  | .answer i env =>
    match s.active i with
    | some ⟨request, .ask c next⟩ =>
      let out := handle s.shared c env
      some
        { shared := out.2
          active := Function.update s.active i (some ⟨request, next out.1⟩)
          trace := s.trace ++ [⟨request, s.shared, c, out.1⟩] }
    | _ => none
  | .stop i => some { s with active := Function.update s.active i none }

variable {program : ω → Prog κ ρ α} {handle : σ → (c : κ) → η → ρ c × σ} {A : Protocol κ ρ τ}

/-- What runs in a slot follows the protocol from the stage of the slot. -/
def Follows (A : Protocol κ ρ τ) : Option (Active ω κ ρ α) → Option (ω × τ) → Prop
  | none, none => True
  | some p, some t => p.request = t.1 ∧ p.rest.Ensures A t.2 fun _ _ => True
  | _, _ => False

/-- **Invariants of a pool**, by the permitted calls: `R` speaks of the shared state, the stages of
the slots and the history. -/
theorem pool_invariant {start : ω → τ} {R : σ → (ι → Option (ω × τ)) →
    List (Answered ω κ ρ σ) → Prop}
    (hprogram : ∀ request, (program request).Ensures A (start request) fun _ _ => True)
    (hstart : ∀ s stage trace i request, R s stage trace → stage i = none →
      R s (Function.update stage i (some (request, start request))) trace)
    (hstop : ∀ s stage trace i, R s stage trace → R s (Function.update stage i none) trace)
    (hanswer : ∀ s stage trace i request t c env answer s', R s stage trace →
      stage i = some (request, t) → A.allowed t c → handle s c env = (answer, s') →
      R s' (Function.update stage i (some (request, A.next t c answer)))
        (trace ++ [⟨request, s, c, answer⟩]))
    {s₀ : σ} (h0 : R s₀ (fun _ => none) []) {s : Pool ι ω κ ρ α σ} {es : List (PoolEvent ι ω η)}
    (h : run (poolStep program handle) (.init s₀) es = some s) :
    ∃ stage, (∀ i, Follows A (s.active i) (stage i)) ∧ R s.shared stage s.trace := by
  refine run_invariant (I := fun s : Pool ι ω κ ρ α σ =>
    ∃ stage, (∀ i, Follows A (s.active i) (stage i)) ∧ R s.shared stage s.trace) ?_ ?_ h
  · rintro s e u ⟨stage, hfollows, hR⟩ hstep
    -- one slot moves, and the others follow their stages as before
    have hupdate : ∀ i p t, Follows A p t → ∀ j, Follows A (Function.update s.active i p j)
        (Function.update stage i t j) := by
      intro i p t hpt j
      by_cases hj : j = i
      · subst hj
        rwa [Function.update_self, Function.update_self]
      · rw [Function.update_of_ne hj, Function.update_of_ne hj]
        exact hfollows j
    cases e with
    | start i request =>
      simp only [poolStep] at hstep
      split at hstep
      · cases hstep
      next hnone =>
      obtain rfl := Option.some.inj hstep
      -- an empty slot has no stage
      have hstage : stage i = none := by
        have hi := hfollows i
        rw [hnone] at hi
        cases hstage : stage i with
        | none => rfl
        | some t =>
          rw [hstage] at hi
          exact hi.elim
      exact ⟨_, hupdate i (some ⟨request, program request⟩) (some (request, start request))
        ⟨rfl, hprogram request⟩, hstart _ _ _ i request hR hstage⟩
    | stop i =>
      obtain rfl := Option.some.inj hstep
      exact ⟨_, hupdate i none none trivial, hstop _ _ _ i hR⟩
    | answer i env =>
      simp only [poolStep] at hstep
      split at hstep
      next request c next hactive =>
        obtain rfl := Option.some.inj hstep
        have hi := hfollows i
        rw [hactive] at hi
        cases hstage : stage i with
        | none =>
          rw [hstage] at hi
          exact hi.elim
        | some t =>
          rw [hstage] at hi
          obtain ⟨request', t⟩ := t
          obtain ⟨rfl, hallowed, hnext⟩ := hi
          exact ⟨_, hupdate i (some ⟨request, next _⟩) (some (request, A.next t c _))
            ⟨rfl, hnext _⟩, hanswer _ _ _ i request t c env _ _ hR hstage hallowed rfl⟩
      · cases hstep
  · exact ⟨fun _ => none, fun _ => trivial, h0⟩

end

/-! ## One program in a world that moves -/

/-- What a call was answered. -/
structure Reply (κ : Type) (ρ : κ → Type) where
  call : κ
  answer : ρ call

/-- The world, what is left of the program, and the answers so far. -/
structure Moving (κ : Type) (ρ : κ → Type) (α σ : Type) where
  world : σ
  rest : Prog κ ρ α
  replies : List (Reply κ ρ)

/-- The world moves by itself, or it answers the next call. -/
inductive Motion (ζ η : Type) where
  | move (e : ζ)
  | answer (env : η)

section

variable {κ α σ ζ η τ : Type} {ρ : κ → Type}

def movingStep (step : σ → ζ → Option σ) (handle : σ → η → (c : κ) → ρ c) (s : Moving κ ρ α σ) :
    Motion ζ η → Option (Moving κ ρ α σ)
  | .move e => (step s.world e).map fun t => { s with world := t }
  | .answer env =>
    match s.rest with
    | .done _ => none
    | .ask c next =>
      some ⟨s.world, next (handle s.world env c), s.replies ++ [⟨c, handle s.world env c⟩]⟩

/-- The stage that some answers lead to. -/
def Protocol.after (A : Protocol κ ρ τ) (t : τ) (replies : List (Reply κ ρ)) : τ :=
  replies.foldl (fun t r => A.next t r.call r.answer) t

variable {step : σ → ζ → Option σ} {handle : σ → η → (c : κ) → ρ c} {A : Protocol κ ρ τ} {t₀ : τ}
  {Q : Moving κ ρ α σ → Motion ζ η → Prop} {R : σ → τ → Prop} {post : α → τ → Prop} {s₀ : σ}
  {program : Prog κ ρ α}

/-- **Invariants of a world and a program**, by the permitted calls: `R` speaks of the world and of
the stage that the answers lead to. -/
theorem moving_invariant (hprogram : program.Ensures A t₀ post)
    (hmove : ∀ (s : Moving κ ρ α σ) e w, R s.world (A.after t₀ s.replies) → Q s (.move e) →
      step s.world e = some w → R w (A.after t₀ s.replies))
    (hanswer : ∀ w t c env, R w t → A.allowed t c → R w (A.next t c (handle w env c)))
    (h0 : R s₀ t₀) {es : List (Motion ζ η)} {s : Moving κ ρ α σ}
    (hQ : Along (movingStep step handle) Q ⟨s₀, program, []⟩ es)
    (h : run (movingStep step handle) ⟨s₀, program, []⟩ es = some s) :
    s.rest.Ensures A (A.after t₀ s.replies) post ∧ R s.world (A.after t₀ s.replies) := by
  refine run_invariant_along (I := fun s : Moving κ ρ α σ =>
    s.rest.Ensures A (A.after t₀ s.replies) post ∧ R s.world (A.after t₀ s.replies)) (Q := Q) ?_
      ⟨hprogram, h0⟩ hQ h
  rintro e - s u ⟨hrest, hR⟩ hQe hstep
  cases e with
  | move e =>
    obtain ⟨w, hw, rfl⟩ := Option.map_eq_some_iff.mp hstep
    exact ⟨hrest, hmove s e w hR hQe hw⟩
  | answer env =>
    simp only [movingStep] at hstep
    split at hstep
    · cases hstep
    · next c next hask =>
      rw [hask] at hrest
      obtain rfl := Option.some.inj hstep
      unfold Protocol.after at hrest hR ⊢
      rw [List.foldl_append]
      exact ⟨hrest.2 _, hanswer _ _ c env hR hrest.1⟩

end

/-! ## One program alone -/

section

variable {κ α β σ ε l π : Type} {ρ : κ → Type} (handle : σ → (c : κ) → ρ c × σ)

/-- The program alone, from the state `s`. -/
def Prog.run : Prog κ ρ α → σ → α × σ
  | .done a, s => (a, s)
  | .ask c next, s => (next (handle s c).1).run (handle s c).2

theorem Prog.run_bind {f : α → Prog κ ρ β} : ∀ {x : Prog κ ρ α} {s : σ},
    (x.bind f).run handle s = (f (x.run handle s).1).run handle (x.run handle s).2
  | .done _, _ => rfl
  | .ask c next, s => Prog.run_bind (x := next (handle s c).1) (s := (handle s c).2)

/-- What every call of a kind keeps, a program of such calls keeps. -/
theorem Prog.All.run {P : κ → Prop} {I : σ → Prop} (hI : ∀ s c, I s → P c → I (handle s c).2) :
    ∀ {x : Prog κ ρ α} {s : σ}, x.All P → I s → I (x.run handle s).2
  | .done _, _, _, hs => hs
  | .ask c next, s, hx, hs =>
    Prog.All.run hI (x := next (handle s c).1) (s := (handle s c).2) (hx.2 _) (hI s c hs hx.1)

/-- What the program returns or raises, its local variables, and the state. -/
def Act.run (act : Act κ ρ ε l α) (x : l) (s : σ) : (Except ε α × l) × σ := (act x).run handle s

variable {handle} {act : Act κ ρ ε l α} {x y : l} {s t : σ}

theorem Act.run_andThen_ok {f : α → Act κ ρ ε l β} {g : ε → Act κ ρ ε l β} {a : α}
    (h : act.run handle x s = ((.ok a, y), t)) :
    (act.andThen f g).run handle x s = (f a).run handle y t := by
  refine (Prog.run_bind handle).trans ?_
  rw [show (act x).run handle s = ((.ok a, y), t) from h]
  rfl

theorem Act.run_andThen_error {f : α → Act κ ρ ε l β} {g : ε → Act κ ρ ε l β} {e : ε}
    (h : act.run handle x s = ((.error e, y), t)) :
    (act.andThen f g).run handle x s = (g e).run handle y t := by
  refine (Prog.run_bind handle).trans ?_
  rw [show (act x).run handle s = ((.error e, y), t) from h]
  rfl

theorem Act.run_bind_ok {f : α → Act κ ρ ε l β} {a : α} (h : act.run handle x s = ((.ok a, y), t)) :
    (act >>= f).run handle x s = (f a).run handle y t := Act.run_andThen_ok h

theorem Act.run_bind_error {f : α → Act κ ρ ε l β} {e : ε}
    (h : act.run handle x s = ((.error e, y), t)) :
    (act >>= f).run handle x s = ((.error e, y), t) := Act.run_andThen_error h

theorem Act.run_tryCatch_ok {g : ε → Act κ ρ ε l α} {a : α}
    (h : act.run handle x s = ((.ok a, y), t)) :
    (tryCatch act g).run handle x s = ((.ok a, y), t) := Act.run_andThen_ok h

theorem Act.run_tryCatch_error {g : ε → Act κ ρ ε l α} {e : ε}
    (h : act.run handle x s = ((.error e, y), t)) :
    (tryCatch act g).run handle x s = (g e).run handle y t := Act.run_andThen_error h

/-! ### Points of failure -/

/-- The first of some points at which something fails: the exception, and what the point says. -/
def firstFailure (points : List (Option ε × π)) : Option (ε × π) :=
  points.findSome? fun p => p.1.map fun e => (e, p.2)

theorem firstFailure_append (points points' : List (Option ε × π)) :
    firstFailure (points ++ points') = (firstFailure points).or (firstFailure points') := by
  unfold firstFailure
  rw [List.findSome?_append]

theorem mem_of_firstFailure {points : List (Option ε × π)} {e : ε} {p : π}
    (h : firstFailure points = some (e, p)) : (some e, p) ∈ points := by
  obtain ⟨q, hq, hmap⟩ := List.exists_of_findSome?_eq_some h
  obtain ⟨e', he', hmk⟩ := Option.map_eq_some_iff.mp hmap
  obtain ⟨rfl, rfl⟩ := Prod.mk.inj hmk
  rwa [← he']

/-- The program comes to the points in their order: it raises at the first one that fails, and
leaves there what `left` says; where none fails, `R` holds of how it ends. -/
def Act.Leads (handle : σ → (c : κ) → ρ c × σ) (act : Act κ ρ ε l α) (x : l) (s : σ)
    (points : List (Option ε × π))
    (left : π → l → σ → Prop) (R : (Except ε α × l) × σ → Prop) : Prop :=
  match firstFailure points with
  | some (e, p) => ∃ y t, act.run handle x s = ((.error e, y), t) ∧ left p y t
  | none => R (act.run handle x s)

/-- A value is returned, and `Q` holds. -/
def Returns (Q : α → l → σ → Prop) (out : (Except ε α × l) × σ) : Prop :=
  ∃ a y t, out = ((.ok a, y), t) ∧ Q a y t

/-- Past all of the points the program returns a value. -/
def Act.Passes (handle : σ → (c : κ) → ρ c × σ) (act : Act κ ρ ε l α) (x : l) (s : σ)
    (points : List (Option ε × π))
    (left : π → l → σ → Prop) (Q : α → l → σ → Prop) : Prop :=
    act.Leads handle x s points left (Returns Q)

variable {points points' : List (Option ε × π)} {left : π → l → σ → Prop}

theorem Act.Leads.of_some {R : (Except ε α × l) × σ → Prop} {e : ε} {p : π}
    (hact : act.Leads handle x s points left R) (h : firstFailure points = some (e, p)) :
    ∃ y t, act.run handle x s = ((.error e, y), t) ∧ left p y t := by
  unfold Act.Leads at hact
  rwa [h] at hact

theorem Act.Leads.of_none {R : (Except ε α × l) × σ → Prop}
    (hact : act.Leads handle x s points left R)
    (h : firstFailure points = none) : R (act.run handle x s) := by
  unfold Act.Leads at hact
  rwa [h] at hact

theorem Act.leads_nil {R : (Except ε α × l) × σ → Prop} (h : R (act.run handle x s)) :
    act.Leads handle x s [] left R := h

theorem Act.passes_nil {Q : α → l → σ → Prop} {a : α} (h : act.run handle x s = ((.ok a, y), t))
    (hQ : Q a y t) : act.Passes handle x s [] left Q := ⟨a, y, t, h, hQ⟩

/-- **A program and what follows it**: their points one after the other. -/
theorem Act.Passes.leads {f : α → Act κ ρ ε l β} {Q : α → l → σ → Prop}
    {R : (Except ε β × l) × σ → Prop}
    (hact : act.Passes handle x s points left Q) (points' : List (Option ε × π))
    (hf : ∀ a y t, Q a y t → (f a).Leads handle y t points' left R) :
    (act >>= f).Leads handle x s (points ++ points') left R := by
  unfold Act.Leads
  rw [firstFailure_append]
  cases hpoints : firstFailure points with
  | some p =>
    obtain ⟨y, t, hrun, hleft⟩ := hact.of_some hpoints
    exact ⟨y, t, Act.run_bind_error hrun, hleft⟩
  | none =>
    obtain ⟨a, y, t, hrun, hQ⟩ := hact.of_none hpoints
    have hnext := hf a y t hQ
    rw [Option.none_or, Act.run_bind_ok hrun]
    exact hnext

section

variable {f : α → Act κ ρ ε l β} {Q : α → l → σ → Prop} {R : β → l → σ → Prop}

theorem Act.Passes.bind (hact : act.Passes handle x s points left Q) (points' : List (Option ε × π))
    (hf : ∀ a y t, Q a y t → (f a).Passes handle y t points' left R) :
    (act >>= f).Passes handle x s (points ++ points') left R := hact.leads points' hf

/-- What cannot fail adds no point. -/
theorem Act.Passes.bind_nil (hact : act.Passes handle x s [] left Q)
    (hf : ∀ a y t, Q a y t → (f a).Passes handle y t points left R) :
    (act >>= f).Passes handle x s points left R :=
  hact.bind points hf

theorem Act.Passes.bind_single {o : Option ε} {p : π} (hact : act.Passes handle x s [(o, p)] left Q)
    (hf : ∀ a y t, Q a y t → (f a).Passes handle y t points left R) :
    (act >>= f).Passes handle x s ((o, p) :: points) left R := hact.bind points hf

end

theorem Act.Passes.mono {Q R : α → l → σ → Prop} (hact : act.Passes handle x s points left Q)
    (h : ∀ a y t, Q a y t → R a y t) : act.Passes handle x s points left R := by
  unfold Act.Passes Act.Leads at hact ⊢
  cases hpoints : firstFailure points with
  | some p =>
    rw [hpoints] at hact
    exact hact
  | none =>
    rw [hpoints] at hact
    obtain ⟨a, y, t, hrun, hQ⟩ := hact
    exact ⟨a, y, t, hrun, h a y t hQ⟩

/-- What is known of the end of the first part is all that is needed. -/
theorem Act.Leads.bind {f : α → Act κ ρ ε l β} {R : (Except ε α × l) × σ → Prop}
    {R' : (Except ε β × l) × σ → Prop} (hact : act.Leads handle x s points left R)
    (h : R (act.run handle x s) → R' ((act >>= f).run handle x s)) :
        (act >>= f).Leads handle x s points left R' := by
  unfold Act.Leads at hact ⊢
  cases hpoints : firstFailure points with
  | some p =>
    rw [hpoints] at hact
    obtain ⟨y, t, hrun, hleft⟩ := hact
    exact ⟨y, t, Act.run_bind_error hrun, hleft⟩
  | none =>
    rw [hpoints] at hact
    exact h hact

/-- A check is one point. -/
theorem Act.leads_guard {R : (Except ε α × l) × σ → Prop} {c : Prop} [Decidable c] {e : ε} {p : π}
    (hp : left p x s) (hact : ¬ c → act.Leads handle x s points left R) :
    (if c then throw e else act : Act κ ρ ε l α).Leads handle x s
        ((if c then some e else none, p) :: points) left R := by
  by_cases hc : c
  · rw [if_pos hc, if_pos hc]
    exact ⟨x, s, rfl, hp⟩
  · rw [if_neg hc, if_neg hc]
    exact hact hc

end

/-! ### One call -/

section

variable {κ σ ε l π : Type} {r : κ → Type} {handle : σ → (c : κ) → Except ε (r c) × σ} {x : l}
  {s t : σ} {c : κ} {left : π → l → σ → Prop} {Q : r c → l → σ → Prop}

theorem Act.run_call {out : Except ε (r c)} (h : handle s c = (out, t)) :
    (Act.call c : Act κ (fun c => Except ε (r c)) ε l (r c)).run handle x s = ((out, x), t) := by
  show (((handle s c).1, x), (handle s c).2) = _
  rw [h]

/-- One call is one point. -/
theorem Act.passes_call {o : Option ε} {p : π}
    (herror : ∀ e, o = some e → ∃ t, handle s c = (.error e, t) ∧ left p x t)
    (hok : o = none → ∃ a t, handle s c = (.ok a, t) ∧ Q a x t) :
    (Act.call c : Act κ (fun c => Except ε (r c)) ε l (r c)).Passes handle x s [(o, p)] left Q := by
  unfold Act.Passes Act.Leads
  cases o with
  | some e =>
    obtain ⟨t, hc, hleft⟩ := herror e rfl
    exact ⟨x, t, Act.run_call hc, hleft⟩
  | none =>
    obtain ⟨a, t, hc, hQ⟩ := hok rfl
    exact ⟨a, x, t, Act.run_call hc, hQ⟩

end

end Machine
