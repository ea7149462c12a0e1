import Mathlib

/-!
# Python `float`

A binary64 value, the reading of a decimal literal (the nearest binary64 value, ties to even)
and `repr` (the shortest decimal that reads back to the same value).

The reading is on exact rationals, so no error analysis is needed anywhere: a value that is
representable reads back to itself (`ofRat_value`).

`repr` tries one to seventeen digits. Seventeen always suffice for binary64, but nothing here
depends on that: the exact decimal expansion closes the search.

* `ofDecimal_shortest` — what `repr` writes reads back to the value
-/

namespace Py

/-! ## Values -/

/-- `m * 2 ^ e` is the one form of its value that binary64 stores. -/
def Canonical (m : Nat) (e : Int) : Prop :=
  m < 2 ^ 53 ∧ -1074 ≤ e ∧ e ≤ 971 ∧ (2 ^ 52 ≤ m ∨ e = -1074)

instance (m : Nat) (e : Int) : Decidable (Canonical m e) := by
  unfold Canonical; infer_instance

/-- A finite binary64 value. Zero is `m = 0`, with its sign. -/
structure Finite64 where
  neg : Bool
  m : Nat
  e : Int
  canonical : Canonical m e
  deriving DecidableEq

inductive PyFloat where
  | finite (x : Finite64)
  | inf (neg : Bool)
  | nan
  deriving DecidableEq

/-- `math.isfinite`. -/
def PyFloat.isFinite : PyFloat → Bool
  | .finite _ => true
  | _ => false

def PyFloat.zero (neg : Bool) : PyFloat := .finite ⟨neg, 0, -1074, by decide⟩

/-- `0.0` -/
def Finite64.zero : Finite64 := ⟨false, 0, -1074, by decide⟩

/-- The absolute value. -/
def Finite64.abs (x : Finite64) : ℚ := x.m * (2 : ℚ) ^ x.e

def Finite64.value (x : Finite64) : ℚ := if x.neg then -x.abs else x.abs

/-! ## Rounding -/

def roundHalfEven (q : ℚ) : Nat :=
  let f := ⌊q⌋₊
  if q - f < 1 / 2 then f
  else if 1 / 2 < q - f then f + 1
  else if f % 2 = 0 then f else f + 1

theorem roundHalfEven_natCast (n : Nat) : roundHalfEven n = n := by
  unfold roundHalfEven
  simp

/-- The exponent of the last bit kept. -/
def ulpExp (q : ℚ) : Int := max (Int.log 2 q - 52) (-1074)

/-- The binary64 value nearest to `q > 0`. The pair fails to be canonical on overflow only. -/
def ofRat (neg : Bool) (q : ℚ) : PyFloat :=
  let e := ulpExp q
  let m := roundHalfEven (q / (2 : ℚ) ^ e)
  let m' := if m = 2 ^ 53 then 2 ^ 52 else m
  let e' := if m = 2 ^ 53 then e + 1 else e
  if h : Canonical m' e' then .finite ⟨neg, m', e', h⟩ else .inf neg

theorem ulpExp_value {m : Nat} {e : Int} (h : Canonical m e) (hm : m ≠ 0) :
    ulpExp (m * (2 : ℚ) ^ e) = e := by
  obtain ⟨hlt, hge, _, hor⟩ := h
  have hpos : (0 : ℚ) < m * (2 : ℚ) ^ e := by positivity
  have hupper : (m * (2 : ℚ) ^ e) < (2 : ℚ) ^ (e + 53) := by
    rw [zpow_add₀ (by norm_num), mul_comm]
    refine mul_lt_mul_of_pos_left ?_ (by positivity)
    exact_mod_cast hlt
  have hlog : Int.log 2 (m * (2 : ℚ) ^ e) < e + 53 := by
    have := (Int.lt_zpow_iff_log_lt (b := 2) (by norm_num) hpos (x := e + 53)).mp
    exact this (by exact_mod_cast hupper)
  unfold ulpExp
  rcases hor with hbig | he
  · have hlower : (2 : ℚ) ^ (e + 52) ≤ m * (2 : ℚ) ^ e := by
      rw [zpow_add₀ (by norm_num), mul_comm]
      refine mul_le_mul_of_nonneg_right ?_ (by positivity)
      exact_mod_cast hbig
    have hlog' : e + 52 ≤ Int.log 2 (m * (2 : ℚ) ^ e) := by
      have := (Int.zpow_le_iff_le_log (b := 2) (by norm_num) hpos (x := e + 52)).mp
      exact this (by exact_mod_cast hlower)
    omega
  · omega

/-- A representable value rounds to itself. -/
theorem ofRat_value (x : Finite64) (hm : x.m ≠ 0) : ofRat x.neg x.abs = .finite x := by
  obtain ⟨neg, m, e, hc⟩ := x
  have hdiv : (m * (2 : ℚ) ^ e) / (2 : ℚ) ^ e = m := by
    field_simp
  have hne : m ≠ 2 ^ 53 := by have := hc.1; omega
  unfold ofRat Finite64.abs
  simp only [ulpExp_value hc hm, hdiv, roundHalfEven_natCast, hne, if_false]
  rw [dif_pos hc]

/-- `a / b` on integers, the value nearest to the quotient. It is infinite where Python raises
`OverflowError`. -/
def trueDiv (a b : Int) : PyFloat :=
  let neg := decide (a < 0) != decide (b < 0)
  if a = 0 then .zero neg else ofRat neg (|a| / |b|)

/-! ## Decimals -/

/-- A decimal literal `± digits * 10 ^ exp`, read as `float` does. -/
def ofDecimal (neg : Bool) (digits : Nat) (exp : Int) : PyFloat :=
  if digits = 0 then .zero neg else ofRat neg (digits * (10 : ℚ) ^ exp)

/-- `round(x, n)` -/
def roundTo (x : Finite64) (n : Nat) : PyFloat :=
  ofDecimal x.neg (roundHalfEven (x.abs * 10 ^ n)) (-n)

/-- Only the value of the decimal counts, not how it is written. -/
theorem ofDecimal_congr {neg : Bool} {d d' : Nat} {k k' : Int}
    (h : (d : ℚ) * (10 : ℚ) ^ k = d' * (10 : ℚ) ^ k') :
    ofDecimal neg d k = ofDecimal neg d' k' := by
  have h10 : ∀ j : Int, (10 : ℚ) ^ j ≠ 0 := fun j => zpow_ne_zero j (by norm_num)
  have hz : d = 0 ↔ d' = 0 := by
    constructor
    · rintro rfl
      have := h.symm
      simpa [h10] using this
    · rintro rfl
      simpa [h10] using h
  unfold ofDecimal
  by_cases hd : d = 0
  · rw [if_pos hd, if_pos (hz.mp hd)]
  · rw [if_neg hd, if_neg (fun h' => hd (hz.mpr h')), h]

/-! ## `repr` -/

/-- The two decimals of `n` digits around `q`, the closer one first. -/
def candidates (q : ℚ) (n : Nat) : List (Nat × Int) :=
  let k := Int.log 10 q - n + 1
  let d := ⌊q / (10 : ℚ) ^ k⌋₊
  if q / (10 : ℚ) ^ k - d ≤ 1 / 2 then [(d, k), (d + 1, k)] else [(d + 1, k), (d, k)]

/-- The exact decimal expansion of a binary64 value. -/
def exactDecimal (x : Finite64) : Nat × Int :=
  if 0 ≤ x.e then (x.m * 2 ^ x.e.toNat, 0) else (x.m * 5 ^ (-x.e).toNat, x.e)

/-- The shortest decimal that reads back to `x`, the closest one among the shortest. -/
def shortest (x : Finite64) : Nat × Int :=
  (((List.range 17).flatMap fun i => candidates x.abs (i + 1)).find? fun p =>
    ofDecimal x.neg p.1 p.2 == .finite x).getD (exactDecimal x)

theorem exactDecimal_value (x : Finite64) :
    ((exactDecimal x).1 : ℚ) * (10 : ℚ) ^ (exactDecimal x).2 = x.abs := by
  unfold exactDecimal Finite64.abs
  split
  · next he =>
    have hcast : (2 : ℚ) ^ x.e = (2 : ℚ) ^ x.e.toNat := by
      conv_lhs => rw [← Int.toNat_of_nonneg he]
      exact zpow_natCast _ _
    simp [hcast]
  · next he =>
    have hneg : x.e = -((-x.e).toNat : Int) := by omega
    generalize (-x.e).toNat = n at hneg
    rw [hneg]
    simp only [Nat.cast_mul, Nat.cast_pow, zpow_neg, zpow_natCast]
    rw [show (10 : ℚ) = 2 * 5 by norm_num, mul_pow]
    field_simp
    norm_num

theorem ofDecimal_shortest (x : Finite64) (hm : x.m ≠ 0) :
    ofDecimal x.neg (shortest x).1 (shortest x).2 = .finite x := by
  unfold shortest
  cases hf : List.find? _ _ with
  | some p =>
    have := List.find?_some hf
    simpa using this
  | none =>
    have hne : (exactDecimal x).1 ≠ 0 := by
      unfold exactDecimal
      split <;> simp [hm]
    show ofDecimal x.neg (exactDecimal x).1 (exactDecimal x).2 = _
    rw [ofDecimal, if_neg hne, exactDecimal_value, ofRat_value x hm]

end Py
