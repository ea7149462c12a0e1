import Msb.Infra.Run

/-!
# Read, then write

A call reads a part of the shared data, decides from it what to write, and writes later. Other calls
write in between, so what is written can rest on data that is no longer there.

Where every write still finds what its call has read, nothing of this shows: the data is what the
written calls leave when each of them runs at once, in the order of the writes.

* `serial_of_unchanged` — such a run is a serial run
-/

namespace Machine

/-- Calls `ω` on data `σ`: what a call sees, what it decides to write (`none`: it raises), and the
write. -/
structure ReadWrite (σ ρ ω π : Type*) where
  view : σ → ρ
  plan : ω → ρ → Option π
  exec : π → σ → σ

namespace ReadWrite

variable {σ ρ ω π : Type*} (M : ReadWrite σ ρ ω π)

/-- A call that reads and writes at once. -/
def serial (s : σ) (op : ω) : Option σ := (M.plan op (M.view s)).map fun p => M.exec p s

/-- A call between its read and its write. -/
structure Pending (ρ ω π : Type*) where
  op : ω
  read : ρ
  plan : π

/-- The data, the open calls, and a history of the calls that have written. -/
structure State (σ ρ ω π : Type*) where
  data : σ
  pending : List (Pending ρ ω π)
  written : List ω

inductive Event (ω : Type*) where
  | read (op : ω)
  /-- The open call at a position writes, or its write fails. -/
  | write (i : Nat) (done : Bool)

def init (s : σ) : State σ ρ ω π := ⟨s, [], []⟩

def step (s : State σ ρ ω π) : Event ω → Option (State σ ρ ω π)
  | .read op =>
    match M.plan op (M.view s.data) with
    | none => some s
    | some p => some { s with pending := s.pending ++ [⟨op, M.view s.data, p⟩] }
  | .write i done =>
    match s.pending[i]? with
    | none => none
    | some c =>
      if done then
        some ⟨M.exec c.plan s.data, s.pending.eraseIdx i, s.written ++ [c.op]⟩
      else some { s with pending := s.pending.eraseIdx i }

/-- A call that writes finds what it has read. -/
def Unchanged (s : State σ ρ ω π) (e : Event ω) : Prop :=
  ∀ i c, e = .write i true → s.pending[i]? = some c → M.view s.data = c.read

variable {M} {s t : State σ ρ ω π}

/-- The open calls have decided from what they have read, and the data is the one of a serial run.
-/
structure SerialSoFar (M : ReadWrite σ ρ ω π) (s₀ : σ) (s : State σ ρ ω π) : Prop where
  planned : ∀ c ∈ s.pending, M.plan c.op c.read = some c.plan
  serial : run M.serial s₀ s.written = some s.data

theorem step_serial {s₀ : σ} {e : Event ω} (hs : SerialSoFar M s₀ s) (hq : M.Unchanged s e)
    (h : M.step s e = some t) : SerialSoFar M s₀ t := by
  cases e with
  | read op =>
    simp only [step] at h
    split at h
    · obtain rfl := Option.some.inj h
      exact hs
    · next p hp =>
      obtain rfl := Option.some.inj h
      refine ⟨?_, hs.serial⟩
      intro c hc
      rcases List.mem_append.mp hc with hc | hc
      · exact hs.planned c hc
      · obtain rfl := List.mem_singleton.mp hc
        exact hp
  | write i done =>
    simp only [step] at h
    split at h
    · cases h
    next c hc =>
    have hkept : ∀ d ∈ s.pending.eraseIdx i, M.plan d.op d.read = some d.plan := fun d hd =>
      hs.planned d (List.mem_of_mem_eraseIdx hd)
    cases done with
    | false =>
      obtain rfl := Option.some.inj h
      exact ⟨hkept, hs.serial⟩
    | true =>
      obtain rfl := Option.some.inj h
      have hplan := hs.planned c (List.mem_of_getElem? hc)
      rw [← hq i c rfl hc] at hplan
      refine ⟨hkept, run_concat_eq_some.mpr ⟨s.data, hs.serial, ?_⟩⟩
      rw [ReadWrite.serial, hplan, Option.map_some]

/-- Calls that write before the next one reads. -/
def oneByOne (ops : List ω) : List (Event ω) := ops.flatMap fun op => [.read op, .write 0 true]

/-- They find what they have read. -/
theorem unchanged_oneByOne : ∀ (ops : List ω) (s : State σ ρ ω π), s.pending = [] →
    Along M.step M.Unchanged s (oneByOne ops)
  | [], _, _ => trivial
  | op :: ops, s, hs => by
    show Along M.step M.Unchanged s (.read op :: .write 0 true :: oneByOne ops)
    refine ⟨?_, fun t ht => ⟨?_, fun u hu => ?_⟩⟩
    · intro i c he
      cases he
    · -- the open call is the one that has just read
      intro i c he hc
      cases he
      simp only [step] at ht
      split at ht
      · obtain rfl := Option.some.inj ht
        simp [hs] at hc
      · obtain rfl := Option.some.inj ht
        simp only [hs, List.nil_append, List.getElem?_cons_zero, Option.some.injEq] at hc
        rw [← hc]
    · refine unchanged_oneByOne ops u ?_
      simp only [step] at ht hu
      split at ht
      · obtain rfl := Option.some.inj ht
        simp [hs] at hu
      · obtain rfl := Option.some.inj ht
        simp only [hs, List.nil_append, List.getElem?_cons_zero, if_true, Option.some.injEq] at hu
        rw [← hu]
        rfl

/-- **Serializability.** Where every write finds what its call has read, the data is what the
written calls leave when they run one after the other. -/
theorem serial_of_unchanged {s₀ : σ} {es : List (Event ω)}
    (hq : Along M.step M.Unchanged (init s₀) es) (h : run M.step (init s₀) es = some s) :
    run M.serial s₀ s.written = some s.data := by
  have h0 : SerialSoFar M s₀ (init s₀) := ⟨fun _ hc => absurd hc List.not_mem_nil, rfl⟩
  exact (run_invariant_along (I := SerialSoFar M s₀) (Q := M.Unchanged)
    (fun _ _ _ _ hu hqe hv => step_serial hu hqe hv) h0 hq h).serial

end ReadWrite

end Machine
