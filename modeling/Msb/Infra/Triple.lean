import Mathlib

/-!
# Preconditions and postconditions

A part of a program that may raise, and that keeps what it has written when it does. A triple says
what holds after a value and what holds after an exception, where the precondition held before.

* `Triple.bind` — what a part and what follows it do
* `Keeps.triple` — what a part keeps, whatever comes of it
-/

namespace Stateful

variable {ε σ α β : Type}

/-- From a state with `I` the part returns a value and a state with `Q`, or raises an exception in a
state with `E`. -/
def Triple (I : σ → Prop) (x : EStateM ε σ α) (Q : α → σ → Prop) (E : ε → σ → Prop) : Prop :=
  ∀ s, I s → match x s with
    | .ok a t => Q a t
    | .error e t => E e t

/-- `I` is kept, whatever comes of the part. -/
def Keeps (I : σ → Prop) (x : EStateM ε σ α) : Prop := Triple I x (fun _ => I) fun _ => I

variable {I J : σ → Prop} {x : EStateM ε σ α} {f : α → EStateM ε σ β} {Q R : α → σ → Prop}
  {S : β → σ → Prop} {E F : ε → σ → Prop}

theorem bind_apply (s : σ) : (x >>= f) s = match x s with
    | .ok a t => f a t
    | .error e t => .error e t := by
  simp only [Bind.bind, EStateM.bind]
  cases x s <;> rfl

theorem Triple.mono (h : Triple I x Q E) (hI : ∀ s, J s → I s) (hQ : ∀ a s, Q a s → R a s)
    (hE : ∀ e s, E e s → F e s) : Triple J x R F := by
  intro s hs
  have hx := h s (hI s hs)
  cases hxs : x s with
  | ok a t =>
    rw [hxs] at hx
    exact hQ a t hx
  | error e t =>
    rw [hxs] at hx
    exact hE e t hx

theorem Triple.pure {a : α} (h : ∀ s, I s → Q a s) : Triple I (pure a : EStateM ε σ α) Q E :=
  fun s hs => h s hs

theorem Triple.throw {e : ε} (h : ∀ s, I s → E e s) : Triple I (throw e : EStateM ε σ α) Q E :=
  fun s hs => h s hs

theorem Triple.modify {f : σ → σ} {Q : Unit → σ → Prop} (h : ∀ s, I s → Q () (f s)) :
    Triple I (modify f : EStateM ε σ Unit) Q E := fun s hs => h s hs

theorem Triple.get : Triple I (get : EStateM ε σ σ) (fun a s => a = s ∧ I s) E :=
  fun _ hs => ⟨rfl, hs⟩

/-- **A part and what follows its value.** -/
theorem Triple.bind (hx : Triple I x Q E) (hf : ∀ a, Triple (Q a) (f a) S E) :
    Triple I (x >>= f) S E := by
  intro s hs
  have h := hx s hs
  rw [bind_apply]
  cases hxs : x s with
  | ok a t =>
    rw [hxs] at h
    exact hf a t h
  | error e t =>
    rw [hxs] at h
    exact h

theorem Triple.ite {c : Prop} [Decidable c] {y : EStateM ε σ α} (hx : c → Triple I x Q E)
    (hy : ¬c → Triple I y Q E) : Triple I (if c then x else y) Q E := by
  by_cases hc : c
  · rw [if_pos hc]
    exact hx hc
  · rw [if_neg hc]
    exact hy hc

theorem Keeps.bind (hx : Keeps I x) (hf : ∀ a, Keeps I (f a)) : Keeps I (x >>= f) :=
  Triple.bind hx hf

/-- From one state. -/
theorem Triple.cases {s : σ} (h : Triple (· = s) x Q E) :
    (∃ a t, x s = .ok a t ∧ Q a t) ∨ ∃ e t, x s = .error e t ∧ E e t := by
  have hs := h s rfl
  cases hx : x s with
  | ok a t =>
    rw [hx] at hs
    exact .inl ⟨a, t, rfl, hs⟩
  | error e t =>
    rw [hx] at hs
    exact .inr ⟨e, t, rfl, hs⟩

/-- What is kept is known after the part, in either case. -/
theorem Keeps.triple (h : Keeps I x) (hE : ∀ e s, I s → E e s) : Triple I x (fun _ => I) E :=
  h.mono (fun _ hs => hs) (fun _ _ hs => hs) hE

end Stateful
