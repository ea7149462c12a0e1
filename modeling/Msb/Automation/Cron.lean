import Msb.Infra.Number
import Msb.Infra.Text

/-!
# Cron expressions

`cron/parser.py`: an expression of five fields, the minutes at which it fires, and the first of them
after a time. A time is the number of microseconds since the first day of the year 1, in UTC.

* `CronExpr.parse`, `CronExpr.fires`, `CronExpr.nextAfter`
* `nextAfter_eq_some` — the first minute within five years
-/

namespace Cron

open Py

/-! ## The calendar -/

abbrev Time := Nat

/-- The microseconds of a minute. -/
def minute : Nat := 60 * 10 ^ 6

def daysBeforeMonth : List Nat := [0, 31, 59, 90, 120, 151, 181, 212, 243, 273, 304, 334]

def daysInMonth : List Nat := [31, 28, 31, 30, 31, 30, 31, 31, 30, 31, 30, 31]

structure Date where
  year : Nat
  month : Nat
  day : Nat
  deriving DecidableEq

/-- The date of a day, counted from the first of January of the year 1: cycles of 400, of 100 and of
4 years, and years. -/
def dateOf (days : Nat) : Date :=
  let n100 := days % 146097 / 36524
  let n4 := days % 146097 % 36524 / 1461
  let n1 := days % 146097 % 36524 % 1461 / 365
  let n := days % 146097 % 36524 % 1461 % 365
  let year := days / 146097 * 400 + 1 + n100 * 100 + n4 * 4 + n1
  if n1 = 4 ∨ n100 = 4 then ⟨year - 1, 12, 31⟩
  else
    let leap := if n1 = 3 ∧ (n4 ≠ 24 ∨ n100 = 3) then 1 else 0
    -- the estimate of the month is right or one too high
    let month := (n + 50) / 32
    let preceding := daysBeforeMonth.getD (month - 1) 0 + if month > 2 then leap else 0
    if preceding > n then
      let before := preceding - (daysInMonth.getD (month - 2) 0 + if month - 1 = 2 then leap else 0)
      ⟨year, month - 1, n - before + 1⟩
    else ⟨year, month, n - preceding + 1⟩

/-- 0 is Monday. -/
def weekday (days : Nat) : Nat := days % 7

example : dateOf 738944 = ⟨2024, 2, 29⟩ ∧ weekday 738944 = 3 ∧ dateOf 146096 = ⟨400, 12, 31⟩ := by
  decide

/-! ## The fields -/

variable (decimal : CodePoint → Option Nat)

/-- The decimal digits at the front: `\d*`. -/
def takeDecimals : Str → List Nat × Str
  | [] => ([], [])
  | c :: rest =>
    match decimal c with
    | some d => (d :: (takeDecimals rest).1, (takeDecimals rest).2)
    | none => ([], c :: rest)

/-- `int` of digits: no more than 4300. -/
def readInt (digits : List Nat) : Option Nat :=
  if digits.length > 4300 then none else some (digitsVal digits)

/-- `\d+` -/
def takeNumber (s : Str) : Option (List Nat × Str) :=
  if (takeDecimals decimal s).1 = [] then none else some (takeDecimals decimal s)

/-- `\d+|\*`: a star is no digits. -/
def takeBound (s : Str) : Option (Option (List Nat) × Str) :=
  if s.head? = some 42 then some (none, s.drop 1) else (takeNumber decimal s).map fun p =>
    (some p.1, p.2)

/-- An element of a field: `start`, `start-end`, `start/step`, `start-end/step`. -/
structure Token where
  start : Option (List Nat)
  stop : Option (Option (List Nat))
  step : Option (List Nat)

def readToken (s : Str) : Option Token := do
  let (start, s) ← takeBound decimal s
  let (stop, s) ← if s.head? = some 45 then (takeBound decimal (s.drop 1)).map fun p =>
    (some p.1, p.2) else some (none, s)
  let (step, s) ← if s.head? = some 47 then (takeNumber decimal (s.drop 1)).map fun p =>
    (some p.1, p.2) else some (none, s)
  if s = [] then some ⟨start, stop, step⟩ else none

/-- The values of an element of a field. -/
def tokenValues (lo hi : Nat) (t : Token) : Option (List Nat) := do
  let start ← match t.start with
    | none => some lo
    | some digits => readInt digits
  let stop ← match t.stop with
    | none => some (if t.start = none then hi else start)
    | some none => some hi
    | some (some digits) => readInt digits
  let step ← match t.step with
    | none => some 1
    | some digits => readInt digits
  if start < lo ∨ stop > hi ∨ start > stop then none
  else if step < 1 then none
  else some (List.range' start ((stop - start) / step + 1) step)

/-- `sorted(set(values))` -/
def sortedSet (values : List Nat) : List Nat := values.dedup.insertionSort (· ≤ ·)

/-- `_parse_field`; the texts of the errors are not read. -/
def parseField (expr : Str) (lo hi : Nat) : Option (List Nat) := do
  let parts ← (expr.splitOn 44).mapM fun part => do
    let token ← readToken decimal (strip part)
    tokenValues lo hi token
  if parts.flatten = [] then none else some (sortedSet parts.flatten)

/-- `_canonical_dow`: 7 is Sunday too. -/
def canonicalDow (values : List Nat) : List Nat :=
  sortedSet (values.map fun v => if v = 7 then 0 else v)

/-! ## The expressions -/

structure CronExpr where
  minutes : List Nat
  hours : List Nat
  daysOfMonth : List Nat
  months : List Nat
  daysOfWeek : List Nat

namespace CronExpr

/-- `parse` -/
def parse (expr : Str) : Option CronExpr :=
  match (expr.splitOnP isSpace).filter (· ≠ []) with
  | [minutes, hours, dom, months, dow] => do
    let minutes ← parseField decimal minutes 0 59
    let hours ← parseField decimal hours 0 23
    let dom ← parseField decimal dom 1 31
    let months ← parseField decimal months 1 12
    let dow ← parseField decimal dow 0 7
    some ⟨minutes, hours, dom, months, canonicalDow dow⟩
  | _ => none

variable (e : CronExpr)

/-- `matches`: does the expression fire at this minute? The minutes are counted as the time is. -/
def fires (m : Nat) : Bool :=
  let date := dateOf (m / 1440)
  let dayMatches := decide (date.day ∈ e.daysOfMonth)
  let dowMatches := decide ((weekday (m / 1440) + 1) % 7 ∈ e.daysOfWeek)
  decide (m % 60 ∈ e.minutes) && decide (m / 60 % 24 ∈ e.hours) && decide (date.month ∈ e.months) &&
    if e.daysOfMonth.length < 31 ∧ e.daysOfWeek.length < 7 then dayMatches || dowMatches
    else if e.daysOfMonth.length < 31 then dayMatches
    else if e.daysOfWeek.length < 7 then dowMatches
    else true

/-- The loop of `next_after`, for so many minutes. -/
def scan : Nat → Nat → Option Nat
  | 0, _ => none
  | n + 1, probe => if e.fires probe then some probe else scan n (probe + 1)

/-- The minutes of five years. -/
def horizon : Nat := 365 * 5 * 1440

/-- `next_after`: the first minute after the time, within five years. -/
def nextAfter (t : Time) : Option Time := (e.scan horizon (t / minute + 1)).map (· * minute)

variable {e} {n probe m : Nat} {t o : Time}

theorem scan_eq_some : e.scan n probe = some m ↔
    e.fires m = true ∧ probe ≤ m ∧ m < probe + n ∧ ∀ k, probe ≤ k → k < m → e.fires k = false := by
  induction n generalizing probe with
  | zero =>
    refine iff_of_false (by simp [scan]) ?_
    rintro ⟨-, hle, hlt, -⟩
    omega
  | succ n ih =>
    unfold scan
    by_cases hfires : e.fires probe = true
    · rw [if_pos hfires]
      constructor
      · intro h
        obtain rfl := Option.some.inj h
        refine ⟨hfires, le_refl _, by omega, ?_⟩
        intro k hk hlt
        omega
      · rintro ⟨hm, hle, -, hfirst⟩
        by_contra hne
        have hlt : probe < m := lt_of_le_of_ne hle fun heq => hne (congrArg some heq)
        rw [hfirst probe (le_refl _) hlt] at hfires
        cases hfires
    · rw [if_neg hfires, ih]
      rw [Bool.not_eq_true] at hfires
      constructor
      · rintro ⟨hm, hle, hlt, hfirst⟩
        refine ⟨hm, by omega, by omega, ?_⟩
        intro k hk hkm
        by_cases hkp : k = probe
        · rw [hkp]
          exact hfires
        · exact hfirst k (by omega) hkm
      · rintro ⟨hm, hle, hlt, hfirst⟩
        have hne : m ≠ probe := by
          rintro rfl
          rw [hfires] at hm
          cases hm
        refine ⟨hm, by omega, by omega, ?_⟩
        intro k hk hkm
        exact hfirst k (by omega) hkm

/-- **The first minute after the time** at which the expression fires. -/
theorem nextAfter_eq_some (h : e.nextAfter t = some o) :
    (∃ m, e.fires m = true ∧ o = m * minute) ∧ t < o ∧ ∀ m, e.fires m = true → t < m * minute →
    o ≤ m * minute := by
  obtain ⟨m, hscan, rfl⟩ := Option.map_eq_some_iff.mp h
  obtain ⟨hm, hle, -, hfirst⟩ := scan_eq_some.mp hscan
  have hpos : 0 < minute := by decide
  have hafter : t < m * minute := by
    have hdiv : t / minute < m := hle
    exact (Nat.div_lt_iff_lt_mul hpos).mp hdiv
  refine ⟨⟨m, hm, rfl⟩, hafter, fun k hk hkt => ?_⟩
  have hdiv : t / minute < k := (Nat.div_lt_iff_lt_mul hpos).mpr hkt
  refine Nat.mul_le_mul_right minute ?_
  by_contra hlt
  rw [hfirst k hdiv (by omega)] at hk
  cases hk

end CronExpr

end Cron
