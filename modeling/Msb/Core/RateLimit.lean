import Msb.Infra.Keyed
import Msb.Infra.Text

/-!
# The rate limiter

`RateLimiter` of `core/rate_limit.py`. A client has one entry: when its window was opened, and what
it has used since. The first check that comes more than the length of a window later opens a new
one. A check of a client without an entry sweeps the windows that are over, where the table is full.

The clock is read twice in a check, and counts from the epoch. What it gives are fractions here,
whose differences are exact.

* `check_fst` — what decides a check
* `rate_limit_law` — what holds in every run
-/

namespace Core

open Py

/-- When the window was opened, and the units since. -/
abbrev WindowEntry := ℚ × ℕ

/-- The dict of the entries. -/
structure Table where
  entries : List (Str × WindowEntry)
  unique : Keyed.Unique Prod.fst entries

namespace Table

def empty : Table := ⟨[], Keyed.unique_nil⟩

def get? (t : Table) (key : Str) : Option WindowEntry :=
  (Keyed.find Prod.fst key t.entries).map Prod.snd

/-- `self._table[key]` of a `defaultdict` -/
def getD (t : Table) (key : Str) : WindowEntry := (t.get? key).getD (0, 0)

def put (t : Table) (key : Str) (e : WindowEntry) : Table :=
  ⟨Keyed.put Prod.fst (key, e) t.entries, t.unique.put⟩

/-- Without the windows that were opened before the cutoff. -/
def sweep (t : Table) (cutoff : ℚ) : Table :=
  ⟨t.entries.filter fun p => ¬ p.2.1 < cutoff, t.unique.sublist (List.filter_sublist.map Prod.fst)⟩

def size (t : Table) : ℕ := t.entries.length

end Table

/-- The limiter: what its callables give, and `max_keys`. -/
structure RateLimiter where
  windowS : ℚ
  maxCount : ℤ
  maxKeys : ℤ

/-- A call of `check`, with what the clock gives for the sweep and for the check itself. -/
structure Check where
  client : Str
  units : ℕ
  sweptAt : ℚ
  now : ℚ

variable (L : RateLimiter)

/-- What is answered, and the entry that is left. -/
def consume (e : WindowEntry) (units : ℕ) (now : ℚ) : Bool × WindowEntry :=
  if now - e.1 > L.windowS then
    if (units : ℤ) > L.maxCount then (false, (now, 0)) else (true, (now, units))
  else if ((e.2 + units : ℕ) : ℤ) > L.maxCount then (false, e)
  else (true, (e.1, e.2 + units))

/-- The sweep before the check of a client without an entry. -/
def prune (t : Table) (c : Check) : Table :=
  if t.get? c.client = none ∧ (t.size : ℤ) ≥ L.maxKeys then t.sweep (c.sweptAt - L.windowS) else t

/-- `check` -/
def check (t : Table) (c : Check) : Bool × Table :=
  let swept := prune L t c
  let answer := consume L (swept.getD c.client) c.units c.now
  (answer.1, swept.put c.client answer.2)

/-! ## Runs -/

/-- A check, what was answered, and when the window was opened that it was counted in. -/
structure Outcome where
  check : Check
  allowed : Bool
  window : ℚ

/-- The checks one after another. -/
def history (t : Table) : List Check → List Outcome
  | [] => []
  | c :: cs => ⟨c, (check L t c).1, ((check L t c).2.getD c.client).1⟩ :: history (check L t c).2 cs

/-- The table after them. -/
def tableAfter (t : Table) (cs : List Check) : Table := cs.foldl (fun t c => (check L t c).2) t

/-- The units that were allowed in a window of a client. -/
def spent (os : List Outcome) (client : Str) (window : ℚ) : ℕ :=
  ((os.filter fun o => o.allowed = true ∧ o.check.client = client ∧ o.window = window).map fun o =>
    o.check.units).sum

/-- The clients with a check since a time. -/
def activeSince (cs : List Check) (time : ℚ) : List Str :=
  ((cs.filter fun c => time ≤ c.now).map Check.client).dedup

/-- The clock does not go back. -/
def Clocked : ℚ → List Check → Prop
  | _, [] => True
  | time, c :: cs => time ≤ c.sweptAt ∧ c.sweptAt ≤ c.now ∧ Clocked c.now cs

instance decidableClocked : ∀ time cs, Decidable (Clocked time cs)
  | _, [] => isTrue trivial
  | time, c :: cs =>
    have := decidableClocked c.now cs
    inferInstanceAs (Decidable (time ≤ c.sweptAt ∧ c.sweptAt ≤ c.now ∧ Clocked c.now cs))

/-- What the answers to a client are. -/
def answersTo (os : List Outcome) (client : Str) : List Bool :=
  (os.filter fun o => o.check.client = client).map Outcome.allowed

/-- What the limiter guarantees for a run. -/
structure Limited (checks : List Check) : Prop where
  /-- What is allowed in one window of a client is at most the cap. -/
  capped : ∀ o ∈ history L .empty checks, o.allowed = true →
    (spent (history L .empty checks) o.check.client o.window : ℤ) ≤ L.maxCount
  /-- A check is counted in a window that is open. -/
  spans : ∀ o ∈ history L .empty checks, o.window ≤ o.check.now ∧ o.check.now ≤ o.window + L.windowS
  /-- A window of a client is over before the next one is opened. -/
  apart : ∀ o ∈ history L .empty checks, ∀ o' ∈ history L .empty checks,
    o.check.client = o'.check.client → o.window < o'.window → o.window + L.windowS < o'.window
  /-- After a denied check, what is checked next is answered as without it. -/
  denied : ∀ pre c post, checks = pre ++ c :: post →
    (check L (tableAfter L .empty pre) c).1 = false →
    ∀ d : Check, c.now ≤ d.sweptAt → d.sweptAt ≤ d.now →
      (check L (tableAfter L .empty (pre ++ [c])) d).1 = (check L (tableAfter L .empty pre) d).1
  /-- A client is answered as if it were the only one. -/
  isolated : ∀ client, answersTo (history L .empty checks) client =
    (history L .empty (checks.filter fun c => c.client = client)).map Outcome.allowed
  /-- Only the check of a client without an entry makes the table longer, and not beyond `max_keys`
  and the active clients. -/
  bounded : ∀ pre c post, checks = pre ++ c :: post →
    ((tableAfter L .empty pre).get? c.client = none →
      ((tableAfter L .empty (pre ++ [c])).size : ℤ) ≤
      max L.maxKeys (activeSince (pre ++ [c]) (c.sweptAt - L.windowS)).length) ∧
    ((tableAfter L .empty pre).get? c.client ≠ none → (tableAfter L .empty (pre ++ [c])).size =
      (tableAfter L .empty pre).size)

section

variable {L} {t t' : Table} {c d : Check} {e e' : WindowEntry} {client key : Str}
  {cutoff time now : ℚ} {units : ℕ}

/-! ## The table -/

theorem Table.get?_eq_some : t.get? key = some e ↔ (key, e) ∈ t.entries := by
  unfold Table.get?
  rw [Option.map_eq_some_iff]
  simp only [Keyed.find_eq_some t.unique]
  constructor
  · rintro ⟨⟨_, _⟩, ⟨hp, rfl⟩, rfl⟩
    exact hp
  · intro h
    exact ⟨_, ⟨h, rfl⟩, rfl⟩

theorem Table.get?_put :
    (t.put key e).get? client = if client = key then some e else t.get? client := by
  unfold Table.get? Table.put
  rw [Keyed.find_put t.unique]
  split <;> rfl

theorem Table.get?_sweep :
    (t.sweep cutoff).get? key = (t.get? key).filter fun e => ¬ e.1 < cutoff := by
  ext e
  rw [Option.filter_eq_some_iff, Table.get?_eq_some, Table.get?_eq_some]
  unfold Table.sweep
  rw [List.mem_filter]

theorem Table.getD_put_self : (t.put key e).getD key = e := by
  rw [Table.getD, Table.get?_put, if_pos rfl, Option.getD_some]

theorem Table.getD_put_of_ne (h : client ≠ key) : (t.put key e).getD client = t.getD client := by
  rw [Table.getD, Table.get?_put, if_neg h, Table.getD]

/-! ## What has been used -/

/-- The units that count against a check at a time. -/
def used (L : RateLimiter) (e : WindowEntry) (time : ℚ) : ℕ :=
  if time - e.1 > L.windowS then 0 else e.2

theorem consume_fst :
    (consume L e units now).1 = decide ((used L e now + units : ℤ) ≤ L.maxCount) := by
  unfold consume used
  split
  · rw [Nat.cast_zero, zero_add]
    split
    · rename_i h
      exact (decide_eq_false (not_le.mpr h)).symm
    · rename_i h
      exact (decide_eq_true (not_lt.mp h)).symm
  · rw [← Nat.cast_add]
    split
    · rename_i h
      exact (decide_eq_false (not_le.mpr h)).symm
    · rename_i h
      exact (decide_eq_true (not_lt.mp h)).symm

/-- A check that is denied leaves what counts against the next one. -/
theorem used_consume (h : (consume L e units now).1 = false) (htime : now ≤ time) :
    used L (consume L e units now).2 time = used L e time := by
  unfold consume at h ⊢
  split at h
  · rename_i hover
    rw [if_pos hover] at ⊢
    split at h
    · rename_i hmany
      rw [if_pos hmany, used, used, if_pos (show time - e.1 > L.windowS by linarith)]
      split <;> rfl
    · cases h
  · rename_i hopen
    rw [if_neg hopen]
    split at h
    · rename_i hmany
      rw [if_pos hmany]
    · cases h

/-- A window that is swept away does not count any more. -/
theorem used_prune (htime : c.sweptAt ≤ time) :
    used L ((prune L t c).getD client) time = used L (t.getD client) time := by
  unfold prune
  split
  · rw [Table.getD, Table.get?_sweep, Table.getD]
    cases hget : t.get? client with
    | none => rfl
    | some e =>
      rw [Option.filter_some]
      split
      · rfl
      · rename_i hswept
        have hlt : e.1 + L.windowS < c.sweptAt := by simpa using hswept
        rw [Option.getD_none, Option.getD_some, used, used,
          if_pos (show time - e.1 > L.windowS by linarith)]
        split <;> rfl
  · rfl

/-- **What decides a check**: what has been used by then, and the cap. -/
theorem check_fst (h : c.sweptAt ≤ c.now) :
    (check L t c).1 = decide ((used L (t.getD c.client) c.now + c.units : ℤ) ≤ L.maxCount) := by
  rw [check, consume_fst, used_prune h]

theorem used_check_of_ne (h : client ≠ c.client) (htime : c.sweptAt ≤ time) :
    used L ((check L t c).2.getD client) time = used L (t.getD client) time := by
  rw [check, Table.getD_put_of_ne h, used_prune htime]

theorem used_check_of_denied (hdenied : (check L t c).1 = false) (hclock : c.sweptAt ≤ c.now)
    (htime : c.now ≤ time) :
    used L ((check L t c).2.getD client) time = used L (t.getD client) time := by
  by_cases hclient : client = c.client
  · subst hclient
    rw [check, Table.getD_put_self, used_consume hdenied htime, used_prune (hclock.trans htime)]
  · exact used_check_of_ne hclient (hclock.trans htime)

/-! ## Alone and among others -/

/-- The entry of a client among others: it is the one it has alone, or it has been swept away. -/
def Agree (L : RateLimiter) (time : ℚ) (a b : Option WindowEntry) : Prop :=
  (∀ e ∈ b, 0 ≤ e.1) ∧ (a = b ∨ (a = none ∧ ∃ e, b = some e ∧ L.windowS < time - e.1))

/-- The sweep before a check leaves the entry of the client. -/
theorem get?_prune_self : (prune L t c).get? c.client = t.get? c.client := by
  unfold prune
  split
  · rename_i h
    rw [Table.get?_sweep, h.1, Option.filter_none]
  · rfl

theorem get?_check_self :
    (check L t c).2.get? c.client = some (consume L (t.getD c.client) c.units c.now).2 := by
  rw [check, Table.get?_put, if_pos rfl, Table.getD, get?_prune_self, Table.getD]

theorem check_fst_eq : (check L t c).1 = (consume L (t.getD c.client) c.units c.now).1 := by
  rw [check, Table.getD, get?_prune_self]
  rfl

theorem get?_check_of_ne (h : client ≠ c.client) : (check L t c).2.get? client = t.get? client ∨
    ((check L t c).2.get? client = none ∧ ∃ e, t.get? client = some e ∧
      L.windowS < c.sweptAt - e.1) := by
  rw [check, Table.get?_put, if_neg h]
  unfold prune
  split
  · rw [Table.get?_sweep]
    cases hget : t.get? client with
    | none => exact .inl rfl
    | some e =>
      rw [Option.filter_some]
      split
      · exact .inl rfl
      · rename_i hswept
        have hlt : e.1 + L.windowS < c.sweptAt := by simpa using hswept
        exact .inr ⟨rfl, e, rfl, by linarith⟩
  · exact .inl rfl

theorem Agree.others {b : Option WindowEntry} (h : Agree L time (t.get? client) b)
    (htime : time ≤ c.sweptAt)
    (hclock : c.sweptAt ≤ c.now) (hne : client ≠ c.client) :
    Agree L c.now ((check L t c).2.get? client) b := by
  refine ⟨h.1, ?_⟩
  rcases h.2 with heq | ⟨hnone, e, he, hover⟩
  · rcases get?_check_of_ne hne with hkept | ⟨hgone, e, he, hover⟩
    · exact .inl (hkept.trans heq)
    · exact .inr ⟨hgone, e, heq ▸ he, by linarith⟩
  · rcases get?_check_of_ne hne with hkept | ⟨hgone, -⟩
    · exact .inr ⟨hkept.trans hnone, e, he, by linarith⟩
    · exact .inr ⟨hgone, e, he, by linarith⟩

theorem start_nonneg (he : 0 ≤ e.1) (hnow : 0 ≤ now) : 0 ≤ (consume L e units now).2.1 := by
  unfold consume
  split
  · split <;> exact hnow
  · split <;> exact he

theorem Agree.consume_eq {a b : Option WindowEntry} (h : Agree L time a b) (htime : time ≤ now) :
    consume L (a.getD (0, 0)) units now = consume L (b.getD (0, 0)) units now := by
  rcases h with ⟨hnonneg, rfl | ⟨rfl, e, rfl, hover⟩⟩
  · rfl
  · -- the window is over, and that of a client without an entry as well
    have he := hnonneg e rfl
    rw [Option.getD_none, Option.getD_some, consume, consume,
      if_pos (show now - 0 > L.windowS by linarith),
      if_pos (show now - e.1 > L.windowS by linarith)]

theorem Agree.own (h : Agree L time (t.get? c.client) (t'.get? c.client)) (htime : time ≤ c.now)
    (hnow : 0 ≤ c.now) :
    (check L t c).1 = (check L t' c).1 ∧ Agree L c.now ((check L t c).2.get? c.client)
    ((check L t' c).2.get? c.client) := by
  have hsame : consume L ((t.get? c.client).getD (0, 0)) c.units c.now = consume L
      ((t'.get? c.client).getD (0, 0)) c.units c.now :=
    h.consume_eq htime
  refine ⟨by rw [check_fst_eq, check_fst_eq, Table.getD, Table.getD, hsame], ?_⟩
  rw [get?_check_self, get?_check_self, Table.getD, Table.getD, hsame]
  refine ⟨fun e he => ?_, .inl rfl⟩
  obtain rfl := Option.some.inj he
  refine start_nonneg ?_ hnow
  cases hget : t'.get? c.client with
  | none => exact le_rfl
  | some e => exact h.1 e hget

/-- A client is answered among others as it is alone. -/
theorem history_agree (cs : List Check) (hclock : Clocked time cs) (htime : 0 ≤ time)
    (h : Agree L time (t.get? client) (t'.get? client)) :
    answersTo (history L t cs) client = (history L t' (cs.filter fun c => c.client = client)).map
        Outcome.allowed := by
  induction cs generalizing t t' time with
  | nil => rfl
  | cons c cs ih =>
    obtain ⟨hswept, hnow, hrest⟩ := hclock
    have hpos : 0 ≤ c.now := htime.trans (hswept.trans hnow)
    by_cases hclient : c.client = client
    · subst hclient
      obtain ⟨hanswer, hagree⟩ := h.own (hswept.trans hnow) hpos
      rw [List.filter_cons_of_pos (by simp), history, history, answersTo,
        List.filter_cons_of_pos (by simp), List.map_cons,
        List.map_cons, ← ih hrest hpos hagree, hanswer]
      rfl
    · rw [List.filter_cons_of_neg (by simpa using hclient), history, answersTo,
        List.filter_cons_of_neg (by simpa using hclient),
        ← ih hrest hpos (h.others hswept hnow (Ne.symm hclient))]
      rfl

/-! ## Windows -/

/-- What holds of the outcomes so far and the table: every client is in its last window, or has none
that is open. -/
structure Windowed (L : RateLimiter) (time : ℚ) (os : List Outcome) (t : Table) : Prop where
  /-- The windows so far. -/
  spans : ∀ o ∈ os, 0 ≤ o.window ∧ o.window ≤ o.check.now ∧ o.check.now ≤ o.window + L.windowS ∧
    o.check.now ≤ time
  apart : ∀ o ∈ os, ∀ o' ∈ os, o.check.client = o'.check.client → o.window < o'.window →
    o.window + L.windowS < o'.window
  capped : ∀ o ∈ os, o.allowed = true → (spent os o.check.client o.window : ℤ) ≤ L.maxCount
  /-- An entry counts what has been allowed in its window, and came with a check. -/
  counted : ∀ client e, t.get? client = some e → e.2 = spent os client e.1 ∧ ∃ o ∈ os,
    o.check.client = client ∧ e.1 ≤ o.check.now
  start : ∀ client e, t.get? client = some e → 0 ≤ e.1 ∧ e.1 ≤ time
  /-- The other windows of a client are over before. -/
  last : ∀ o ∈ os,
    (∃ e, t.get? o.check.client = some e ∧ (o.window = e.1 ∨ o.window + L.windowS < e.1)) ∨
    (t.get? o.check.client = none ∧ o.window + L.windowS < time)

theorem windowed_empty : Windowed L time [] .empty :=
  ⟨by simp, by simp, by simp, fun _ _ h => (by cases h), fun _ _ h => (by cases h), by simp⟩

theorem spent_concat (os : List Outcome) (o : Outcome) (client : Str) (window : ℚ) :
    spent (os ++ [o]) client window =
    spent os client window + if o.allowed = true ∧ o.check.client = client ∧
    o.window = window then o.check.units else 0 := by
  unfold spent
  rw [List.filter_append, List.map_append, List.sum_append]
  congr 1
  rw [List.filter_cons]
  simp only [decide_eq_true_eq]
  split <;> simp

theorem spent_eq_zero {os : List Outcome} {window : ℚ} (h : ∀ o ∈ os, o.check.client = client →
    o.window ≠ window) : spent os client window = 0 := by
  have hnil : (os.filter fun o => o.allowed = true ∧ o.check.client = client ∧ o.window = window) =
      [] := by
    rw [List.filter_eq_nil_iff]
    intro o ho hp
    obtain ⟨-, hclient, hwindow⟩ := of_decide_eq_true hp
    exact h o ho hclient hwindow
  rw [spent, hnil, List.map_nil, List.sum_nil]

/-- The window that a check is counted in: the last one of the client while it is open, or a new one
after all of them. -/
theorem Windowed.consumed {os : List Outcome} (h : Windowed L time os t) (hW : 0 ≤ L.windowS)
    (htime : time ≤ c.now) (hnow : 0 ≤ c.now) :
    let answer := consume L (t.getD c.client) c.units c.now
    (0 ≤ answer.2.1 ∧ answer.2.1 ≤ c.now ∧ c.now ≤ answer.2.1 + L.windowS) ∧
    (∀ o ∈ os, o.check.client = c.client → o.window = answer.2.1 ∨
      o.window + L.windowS < answer.2.1) ∧
    answer.2.2 = spent os c.client answer.2.1 + (if answer.1 = true then c.units else 0) ∧
    (answer.1 = true → (answer.2.2 : ℤ) ≤ L.maxCount) := by
  intro answer
  by_cases hover : c.now - (t.getD c.client).1 > L.windowS
  -- the window is over, and so are the earlier ones of the client
  · have hbefore : ∀ o ∈ os, o.check.client = c.client → o.window + L.windowS < c.now := by
      intro o ho hclient
      have hlast := h.last o ho
      rw [hclient] at hlast
      rcases hlast with ⟨e, he, hwindow⟩ | ⟨-, hwindow⟩
      · rw [Table.getD, he, Option.getD_some] at hover
        rcases hwindow with hwindow | hwindow
        · linarith
        · linarith [(h.start _ _ he).2]
      · linarith
    have hzero : spent os c.client c.now = 0 := spent_eq_zero fun o ho hclient heq => by
      have hlt := hbefore o ho hclient
      linarith
    have hanswer : answer = if (c.units : ℤ) > L.maxCount then (false, (c.now, 0))
      else (true, (c.now, c.units)) := if_pos hover
    split at hanswer
    · rw [hanswer]
      exact ⟨⟨hnow, le_rfl, by linarith⟩, fun o ho hclient =>
        .inr (hbefore o ho hclient), by simp [hzero], by simp⟩
    · rename_i hfits
      rw [hanswer]
      exact ⟨⟨hnow, le_rfl, by linarith⟩, fun o ho hclient =>
        .inr (hbefore o ho hclient), by simp [hzero], fun _ => not_lt.mp hfits⟩
  · obtain ⟨hstart, hin, hcount⟩ : (0 ≤ (t.getD c.client).1 ∧ (t.getD c.client).1 ≤ c.now) ∧
        (∀ o ∈ os, o.check.client = c.client → o.window = (t.getD c.client).1 ∨
          o.window + L.windowS < (t.getD c.client).1) ∧
        (t.getD c.client).2 = spent os c.client (t.getD c.client).1 := by
      cases hget : t.get? c.client with
      | none =>
        -- without an entry the window begins at 0, and no outcome is in it
        rw [Table.getD, hget, Option.getD_none] at hover ⊢
        have hnew : ∀ o ∈ os, o.check.client ≠ c.client := by
          intro o ho hclient
          have hlast := h.last o ho
          rw [hclient, hget] at hlast
          rcases hlast with ⟨e, he, -⟩ | ⟨-, hwindow⟩
          · cases he
          · have hnonneg := (h.spans o ho).1
            simp only [sub_zero] at hover
            linarith
        exact ⟨⟨le_rfl, hnow⟩, fun o ho hclient => absurd hclient (hnew o ho),
          (spent_eq_zero fun o ho hclient => absurd hclient (hnew o ho)).symm⟩
      | some e =>
        rw [Table.getD, hget, Option.getD_some]
        refine ⟨⟨(h.start _ _ hget).1, (h.start _ _ hget).2.trans htime⟩, fun o ho hclient => ?_,
          (h.counted _ _ hget).1⟩
        have hlast := h.last o ho
        rw [hclient, hget] at hlast
        rcases hlast with ⟨e', he', hwindow⟩ | ⟨hnone, -⟩
        · obtain rfl := Option.some.inj he'
          exact hwindow
        · cases hnone
    have hanswer : answer = if (((t.getD c.client).2 + c.units : ℕ) : ℤ) > L.maxCount
      then (false, t.getD c.client)
        else (true, ((t.getD c.client).1, (t.getD c.client).2 + c.units)) := if_neg hover
    split at hanswer
    · rw [hanswer]
      exact ⟨⟨hstart.1, hstart.2, by linarith⟩, hin, by simpa using hcount, by simp⟩
    · rename_i hfits
      rw [hanswer]
      exact ⟨⟨hstart.1, hstart.2, by linarith⟩, hin, by simpa using hcount, fun _ =>
        not_lt.mp hfits⟩

/-- The outcome of a check. -/
def outcomeOf (L : RateLimiter) (t : Table) (c : Check) : Outcome :=
  ⟨c, (check L t c).1, ((check L t c).2.getD c.client).1⟩

/-- One check. -/
theorem Windowed.check {os : List Outcome} (h : Windowed L time os t) (hW : 0 ≤ L.windowS)
    (htime : time ≤ c.sweptAt)
    (hclock : c.sweptAt ≤ c.now) (hpos : 0 ≤ time) :
    Windowed L c.now (os ++ [outcomeOf L t c]) (check L t c).2 := by
  have hnow : time ≤ c.now := htime.trans hclock
  obtain ⟨hspan, hin, hcount, hcap⟩ := h.consumed hW hnow (hpos.trans hnow)
  have hself : (Core.check L t c).2.get? c.client =
    some (consume L (t.getD c.client) c.units c.now).2 := get?_check_self
  have hallowed : (outcomeOf L t c).allowed = (consume L (t.getD c.client) c.units c.now).1 :=
    check_fst_eq
  have hwindow : (outcomeOf L t c).window = (consume L (t.getD c.client) c.units c.now).2.1 := by
    rw [outcomeOf, Table.getD, hself, Option.getD_some]
  set answer := consume L (t.getD c.client) c.units c.now with hanswer
  -- the new outcome counts in its own window alone
  have htotal : spent (os ++ [outcomeOf L t c]) c.client answer.2.1 = answer.2.2 := by
    rw [spent_concat, hallowed, hwindow, hcount]
    simp [outcomeOf]
  have hother : ∀ {client window}, client ≠ c.client →
      spent (os ++ [outcomeOf L t c]) client window = spent os client window := by
    intro client window hne
    rw [spent_concat, if_neg (fun hp => hne hp.2.1.symm), Nat.add_zero]
  refine ⟨fun o ho => ?_, fun o ho o' ho' hsame hlt => ?_, fun o ho hok => ?_, fun client e he =>
    ?_, fun client e he => ?_, fun o ho => ?_⟩
  · rcases List.mem_append.mp ho with ho | ho
    · obtain ⟨h0, h1, h2, h3⟩ := h.spans o ho
      exact ⟨h0, h1, h2, h3.trans hnow⟩
    · obtain rfl := List.mem_singleton.mp ho
      rw [hwindow]
      exact ⟨hspan.1, hspan.2.1, hspan.2.2, le_rfl⟩
  · rcases List.mem_append.mp ho with ho | ho <;> rcases List.mem_append.mp ho' with ho' | ho'
    · exact h.apart o ho o' ho' hsame hlt
    · obtain rfl := List.mem_singleton.mp ho'
      rw [hwindow] at hlt ⊢
      exact (hin o ho hsame).resolve_left hlt.ne
    · obtain rfl := List.mem_singleton.mp ho
      rw [hwindow] at hlt
      rcases hin o' ho' hsame.symm with heq | hbefore <;> linarith
    · obtain rfl := List.mem_singleton.mp ho
      obtain rfl := List.mem_singleton.mp ho'
      exact absurd hlt (lt_irrefl _)
  · rcases List.mem_append.mp ho with ho | ho
    · by_cases hhit : (outcomeOf L t c).allowed = true ∧ (outcomeOf L t c).check.client =
        o.check.client ∧ (outcomeOf L t c).window = o.window
      · have hclient : o.check.client = c.client := hhit.2.1.symm
        rw [hclient, ← hhit.2.2, hwindow, htotal]
        exact hcap (hallowed ▸ hhit.1)
      · rw [spent_concat, if_neg hhit, Nat.add_zero]
        exact h.capped o ho hok
    · obtain rfl := List.mem_singleton.mp ho
      rw [hwindow, show (outcomeOf L t c).check.client = c.client from rfl, htotal]
      exact hcap (hallowed ▸ hok)
  -- the entries of other clients are the old ones, or were swept away
  · by_cases hclient : client = c.client
    · subst hclient
      obtain rfl := Option.some.inj (hself.symm.trans he)
      exact ⟨htotal.symm, _, List.mem_append_right _ List.mem_cons_self, rfl, hspan.2.1⟩
    · have hold : t.get? client = some e := by
        rcases get?_check_of_ne (L := L) (t := t) hclient with hkept | ⟨hgone, -⟩
        · exact hkept ▸ he
        · rw [hgone] at he
          cases he
      obtain ⟨hcounted, o, ho, hsame, hle⟩ := h.counted client e hold
      exact ⟨by rw [hother hclient, hcounted], o, List.mem_append_left _ ho, hsame, hle⟩
  · by_cases hclient : client = c.client
    · subst hclient
      obtain rfl := Option.some.inj (hself.symm.trans he)
      exact ⟨hspan.1, hspan.2.1⟩
    · have hold : t.get? client = some e := by
        rcases get?_check_of_ne (L := L) (t := t) hclient with hkept | ⟨hgone, -⟩
        · exact hkept ▸ he
        · rw [hgone] at he
          cases he
      exact ⟨(h.start client e hold).1, (h.start client e hold).2.trans hnow⟩
  · rcases List.mem_append.mp ho with ho | ho
    · by_cases hclient : o.check.client = c.client
      · rw [hclient, hself]
        exact .inl ⟨_, rfl, hin o ho hclient⟩
      · rcases get?_check_of_ne (L := L) (t := t) hclient with hkept | ⟨hgone, e, he, hover⟩
        · rw [hkept]
          exact (h.last o ho).imp_right fun hlast => ⟨hlast.1, hlast.2.trans_le hnow⟩
        -- its window was swept, so it is over
        · refine .inr ⟨hgone, ?_⟩
          rcases h.last o ho with ⟨e', he', hlast⟩ | ⟨hnone, -⟩
          · obtain rfl := Option.some.inj (he.symm.trans he')
            rcases hlast with heq | hbefore
            · linarith
            · linarith [(h.start _ _ he).2]
          · rw [hnone] at he
            cases he
    · obtain rfl := List.mem_singleton.mp ho
      exact .inl ⟨_, hself, .inl hwindow⟩

theorem windowed_run {os : List Outcome} (h : Windowed L time os t) (hW : 0 ≤ L.windowS)
    (hpos : 0 ≤ time) (cs : List Check)
    (hclock : Clocked time cs) :
    ∃ time', time ≤ time' ∧ Windowed L time' (os ++ history L t cs) (tableAfter L t cs) := by
  induction cs generalizing os t time with
  | nil => exact ⟨time, le_rfl, by simpa [history, tableAfter] using h⟩
  | cons c cs ih =>
    obtain ⟨hswept, hnow, hrest⟩ := hclock
    obtain ⟨time', hle, hrun⟩ :=
      ih (h.check hW hswept hnow hpos) (hpos.trans (hswept.trans hnow)) hrest
    rw [List.append_assoc] at hrun
    exact ⟨time', (hswept.trans hnow).trans hle, hrun⟩

/-! ## The size of the table -/

theorem Table.size_put_new (h : t.get? key = none) : (t.put key e).size = t.size + 1 := by
  have hnone : Keyed.find Prod.fst key t.entries = none := by
    unfold Table.get? at h
    rwa [Option.map_eq_none_iff] at h
  show (Keyed.put Prod.fst (key, e) t.entries).length = t.entries.length + 1
  unfold Keyed.put
  rw [hnone, List.length_append, List.length_singleton]

theorem Table.size_put_old (h : t.get? key ≠ none) : (t.put key e).size = t.size := by
  have hsome : Keyed.find Prod.fst key t.entries ≠ none := by
    unfold Table.get? at h
    rwa [Ne, Option.map_eq_none_iff] at h
  show (Keyed.put Prod.fst (key, e) t.entries).length = t.entries.length
  unfold Keyed.put
  split
  · rename_i hnone
    exact absurd hnone hsome
  · exact List.length_set

theorem map_history (t : Table) (cs : List Check) : (history L t cs).map Outcome.check = cs := by
  induction cs generalizing t with
  | nil => rfl
  | cons c cs ih => rw [history, List.map_cons, ih]

theorem tableAfter_concat (pre : List Check) (c : Check) :
    tableAfter L t (pre ++ [c]) = (check L (tableAfter L t pre) c).2 := by
  rw [tableAfter, List.foldl_append]
  rfl

theorem clocked_append {pre post : List Check} (h : Clocked time (pre ++ c :: post)) :
    Clocked time pre ∧ c.sweptAt ≤ c.now := by
  induction pre generalizing time with
  | nil => exact ⟨trivial, h.2.1⟩
  | cons b pre ih =>
    obtain ⟨hswept, hnow, hrest⟩ := h
    exact ⟨⟨hswept, hnow, (ih hrest).1⟩, (ih hrest).2⟩

/-- What a sweep leaves belongs to clients with a check in the last window. -/
theorem size_check_new {pre : List Check} (h : Windowed L time (history L .empty pre) t)
    (hW : 0 ≤ L.windowS) (hclock : c.sweptAt ≤ c.now) (hnew : t.get? c.client = none) :
    ((check L t c).2.size : ℤ) ≤ max L.maxKeys
        (activeSince (pre ++ [c]) (c.sweptAt - L.windowS)).length := by
  have hput : (check L t c).2.size = (prune L t c).size + 1 :=
    Table.size_put_new (get?_prune_self.trans hnew)
  by_cases hfull : (t.size : ℤ) ≥ L.maxKeys
  · refine le_trans ?_ (le_max_right _ _)
    have hkeys : ((prune L t c).entries.map Prod.fst ++ [c.client]).Nodup := by
      refine List.nodup_append.mpr ⟨(prune L t c).unique, List.nodup_singleton _,
        fun k hk k' hk' heq => ?_⟩
      obtain ⟨⟨_, e⟩, hmem, rfl⟩ := List.mem_map.mp hk
      obtain rfl := List.mem_singleton.mp hk'
      have hsome := Table.get?_eq_some.mpr hmem
      have hself : (prune L t c).get? c.client = some e := heq ▸ hsome
      rw [get?_prune_self, hnew] at hself
      cases hself
    have hactive : ((prune L t c).entries.map Prod.fst ++ [c.client]) ⊆ activeSince (pre ++ [c])
        (c.sweptAt - L.windowS) := by
      intro k hk
      rw [activeSince, List.mem_dedup, List.mem_map]
      simp only [List.mem_filter, decide_eq_true_eq]
      rcases List.mem_append.mp hk with hk | hk
      · obtain ⟨⟨_, e⟩, hmem, rfl⟩ := List.mem_map.mp hk
        have hget := Table.get?_eq_some.mpr hmem
        rw [prune, if_pos ⟨hnew, hfull⟩, Table.get?_sweep, Option.filter_eq_some_iff] at hget
        obtain ⟨-, o, ho, hclient, hle⟩ := h.counted _ e hget.1
        have hcheck : o.check ∈ pre := map_history (L := L) .empty pre ▸ List.mem_map_of_mem ho
        have hkept : ¬ e.1 < c.sweptAt - L.windowS := by simpa using hget.2
        exact ⟨o.check, ⟨List.mem_append_left _ hcheck, by linarith⟩, hclient⟩
      · obtain rfl := List.mem_singleton.mp hk
        exact ⟨c, ⟨List.mem_append_right _ List.mem_cons_self, by linarith⟩, rfl⟩
    have hle := (hkeys.subperm hactive).length_le
    rw [List.length_append, List.length_map, List.length_singleton] at hle
    rw [hput]
    exact_mod_cast hle
  · refine le_trans ?_ (le_max_left _ _)
    have hkept : prune L t c = t := if_neg fun h => hfull h.2
    rw [hput, hkept]
    omega

end

/-! ## Every run -/

/-- **What the limiter guarantees**, while the length of the window and the cap stay as they are. -/
theorem rate_limit_law (L : RateLimiter) (hW : 0 ≤ L.windowS) (checks : List Check)
    (hclock : Clocked 0 checks) : Limited L checks := by
  obtain ⟨_, -, hrun⟩ := windowed_run windowed_empty hW le_rfl checks hclock
  rw [List.nil_append] at hrun
  refine ⟨hrun.capped, fun o ho => ?_, hrun.apart, ?_, fun client => ?_, ?_⟩
  · obtain ⟨-, hafter, hopen, -⟩ := hrun.spans o ho
    exact ⟨hafter, hopen⟩
  · rintro pre c post rfl hdenied d hcd hd
    rw [tableAfter_concat, check_fst hd, check_fst hd, used_check_of_denied hdenied
      (clocked_append hclock).2 (hcd.trans hd)]
  · exact history_agree checks hclock le_rfl ⟨fun _ he => (by cases he), .inl rfl⟩
  · rintro pre c post rfl
    obtain ⟨hpre, hc⟩ := clocked_append hclock
    obtain ⟨_, -, hbefore⟩ := windowed_run windowed_empty hW le_rfl pre hpre
    rw [List.nil_append] at hbefore
    rw [tableAfter_concat]
    refine ⟨size_check_new hbefore hW hc, fun hold => ?_⟩
    have hkept : prune L (tableAfter L .empty pre) c = tableAfter L .empty pre :=
      if_neg fun h => hold h.1
    rw [check, hkept, Table.size_put_old hold]

/-- Two units in a minute, and room for one entry. -/
def perMinute : RateLimiter := ⟨60, 2, 1⟩

/-- A check at a time. -/
def checkAt (client : Str) (units : ℕ) (now : ℚ) : Check := ⟨client, units, now, now⟩

theorem rate_limit_law_perMinute :
    Limited perMinute [checkAt (lit "10.0.0.1") 1 100, checkAt (lit "10.0.0.2") 2 130] :=
  rate_limit_law perMinute (by decide +kernel) _ (by decide +kernel)

/-- The units that are allowed to a client in an interval. -/
def allowedWithin (os : List Outcome) (client : Str) (start finish : ℚ) : ℕ :=
  ((os.filter fun o => o.allowed = true ∧ o.check.client = client ∧ start ≤ o.check.now ∧
    o.check.now ≤ finish).map fun o => o.check.units).sum

/-- At the end of a window and in the next one, three units are allowed within a second; and of
three clients with an entry two have not come for a quarter of an hour. -/
theorem two_windows_and_idle_entries :
    (Clocked 0 [checkAt (lit "10.0.0.1") 1 100, checkAt (lit "10.0.0.1") 1 160,
      checkAt (lit "10.0.0.1") 2 161] ∧ perMinute.maxCount < allowedWithin (history perMinute .empty
        [checkAt (lit "10.0.0.1") 1 100, checkAt (lit "10.0.0.1") 1 160,
          checkAt (lit "10.0.0.1") 2 161]) (lit "10.0.0.1") 150 (150 + perMinute.windowS)) ∧
    (Clocked 0 [checkAt (lit "10.0.0.1") 1 100, checkAt (lit "10.0.0.2") 1 100,
      checkAt (lit "10.0.0.3") 1 100, checkAt (lit "10.0.0.1") 1 1000] ∧
      perMinute.maxKeys +
      (activeSince [checkAt (lit "10.0.0.1") 1 100, checkAt (lit "10.0.0.2") 1 100,
        checkAt (lit "10.0.0.3") 1 100,
        checkAt (lit "10.0.0.1") 1 1000] (1000 - perMinute.windowS)).length <
        (tableAfter perMinute .empty
          [checkAt (lit "10.0.0.1") 1 100, checkAt (lit "10.0.0.2") 1 100,
            checkAt (lit "10.0.0.3") 1 100, checkAt (lit "10.0.0.1") 1 1000]).size) := by
  decide +kernel

end Core
