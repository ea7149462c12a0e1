import Msb.Infra.Number

/-!
# Arithmetic on Python `float`

The exact result on the values, rounded once. A finite result is never further from the exact one
than `ofRat` leaves it.

* `ofRat_of_lt_one` — how far a fraction grows when it is rounded
-/

namespace Py

/-! ## Rounding a fraction -/

theorem floor_le_roundHalfEven (q : ℚ) : ⌊q⌋₊ ≤ roundHalfEven q := by
  unfold roundHalfEven
  dsimp only
  split
  · exact le_rfl
  · split
    · exact Nat.le_succ _
    · split
      · exact le_rfl
      · exact Nat.le_succ _

theorem roundHalfEven_le {q : ℚ} (hq : 0 ≤ q) : (roundHalfEven q : ℚ) ≤ q + 1 / 2 := by
  have hfloor := Nat.floor_le hq
  unfold roundHalfEven
  dsimp only
  split
  · linarith
  next hlow =>
  split
  · push_cast
    linarith
  next hhigh =>
  split
  · linarith
  · push_cast
    linarith

/-- **Rounding of a proper fraction**: it is finite, and larger by half of its last bit at most. -/
theorem ofRat_of_lt_one (neg : Bool) {q : ℚ} (hpos : 0 < q) (hlt : q < 1) :
    ∃ x : Finite64, ofRat neg q = .finite x ∧ x.neg = neg ∧ x.abs ≤ q + (2 : ℚ) ^ ulpExp q / 2 := by
  have htwo : (0 : ℚ) < 2 ^ ulpExp q := by positivity
  have hlog : Int.log 2 q < 0 := by
    have := (Int.lt_zpow_iff_log_lt (b := 2) (by norm_num) hpos (x := 0)).mp
    exact this (by simpa using hlt)
  have hupper : q < (2 : ℚ) ^ (ulpExp q + 53) := by
    have := (Int.lt_zpow_iff_log_lt (b := 2) (by norm_num) hpos (x := ulpExp q + 53)).mpr
    exact_mod_cast this (by unfold ulpExp; omega)
  have hquotient : q / 2 ^ ulpExp q < 2 ^ 53 := by
    rw [div_lt_iff₀ htwo]
    rw [zpow_add₀ (by norm_num), mul_comm] at hupper
    exact_mod_cast hupper
  have hround := roundHalfEven_le (div_nonneg hpos.le htwo.le)
  have hm : roundHalfEven (q / 2 ^ ulpExp q) ≤ 2 ^ 53 := by
    have hcast : (roundHalfEven (q / 2 ^ ulpExp q) : ℚ) < (2 ^ 53 + 1 : ℕ) := by
      push_cast
      linarith
    exact Nat.lt_succ_iff.mp (by exact_mod_cast hcast)
  have hlow : 2 ^ 52 ≤ roundHalfEven (q / 2 ^ ulpExp q) ∨ ulpExp q = -1074 := by
    by_cases he : ulpExp q = -1074
    · exact .inr he
    · refine .inl (le_trans (Nat.le_floor ?_) (floor_le_roundHalfEven _))
      have hexp : ulpExp q + 52 = Int.log 2 q := by
        unfold ulpExp at he ⊢
        omega
      have hlower :=
        (Int.zpow_le_iff_le_log (b := 2) (by norm_num) hpos (x := ulpExp q + 52)).mpr hexp.le
      rw [le_div_iff₀ htwo]
      rw [zpow_add₀ (by norm_num), mul_comm] at hlower
      exact_mod_cast hlower
  have hexp : -1074 ≤ ulpExp q ∧ ulpExp q ≤ -53 := by
    unfold ulpExp
    omega
  have hvalue : (roundHalfEven (q / 2 ^ ulpExp q) : ℚ) * 2 ^ ulpExp q ≤ q + 2 ^ ulpExp q / 2 := by
    have hmul := mul_le_mul_of_nonneg_right hround htwo.le
    rw [add_mul, div_mul_cancel₀ _ htwo.ne'] at hmul
    linarith
  unfold ofRat
  dsimp only
  by_cases hcarry : roundHalfEven (q / 2 ^ ulpExp q) = 2 ^ 53
  · have hc : Canonical (2 ^ 52) (ulpExp q + 1) := ⟨by norm_num, by omega, by omega, .inl le_rfl⟩
    simp only [hcarry, if_true]
    rw [dif_pos hc]
    refine ⟨_, rfl, rfl, ?_⟩
    rw [hcarry] at hvalue
    refine le_trans (le_of_eq ?_) hvalue
    show ((2 ^ 52 : ℕ) : ℚ) * 2 ^ (ulpExp q + 1) = _
    rw [zpow_add₀ (by norm_num)]
    push_cast
    ring
  · have hc : Canonical (roundHalfEven (q / 2 ^ ulpExp q)) (ulpExp q) :=
      ⟨lt_of_le_of_ne hm hcarry, hexp.1, by omega, hlow⟩
    simp only [hcarry, if_false]
    rw [dif_pos hc]
    exact ⟨_, rfl, rfl, hvalue⟩

end Py

namespace Py.PyFloat

/-! ## Operations -/

/-- `float(i)`. It is infinite where Python raises `OverflowError`. -/
def ofInt (i : Int) : PyFloat := ofDecimal (decide (i < 0)) i.natAbs 0

/-- The value nearest to `q`, with the sign of a zero. -/
def rounded (neg : Bool) (q : ℚ) : PyFloat :=
  if q = 0 then .zero neg else ofRat (decide (q < 0)) |q|

def neg : PyFloat → PyFloat
  | .finite x => .finite { x with neg := !x.neg }
  | .inf n => .inf !n
  | .nan => .nan

/-- `a + b`. A zero is negative only where both are. -/
def add : PyFloat → PyFloat → PyFloat
  | .finite a, .finite b => rounded (a.neg && b.neg) (a.value + b.value)
  | .finite _, .inf n | .inf n, .finite _ => .inf n
  | .inf n, .inf k => if n = k then .inf n else .nan
  | .nan, _ | _, .nan => .nan

/-- `a - b` -/
def sub (a b : PyFloat) : PyFloat := a.add b.neg

/-- `a * b` -/
def mul : PyFloat → PyFloat → PyFloat
  | .finite a, .finite b => rounded (a.neg != b.neg) (a.value * b.value)
  | .finite a, .inf n | .inf n, .finite a => if a.m = 0 then .nan else .inf (a.neg != n)
  | .inf n, .inf k => .inf (n != k)
  | .nan, _ | _, .nan => .nan

/-- `a / b` where `b` is not zero. -/
def div : PyFloat → PyFloat → PyFloat
  | .finite a, .finite b => rounded (a.neg != b.neg) (a.value / b.value)
  | .finite a, .inf n => .zero (a.neg != n)
  | .inf n, .finite b => .inf (n != b.neg)
  | .inf _, .inf _ | .nan, _ | _, .nan => .nan

/-- `round(a, n)` -/
def round (n : Nat) : PyFloat → PyFloat
  | .finite x => roundTo x n
  | x => x

/-- `a <= b` -/
def le : PyFloat → PyFloat → Bool
  | .nan, _ | _, .nan => false
  | .inf true, _ | _, .inf false => true
  | .inf false, _ | _, .inf true => false
  | .finite a, .finite b => decide (a.value ≤ b.value)

/-- `a < b` -/
def lt (a b : PyFloat) : Bool := a.le b && !b.le a

/-- `min(a, b)` -/
def min (a b : PyFloat) : PyFloat := if b.lt a then b else a

/-- `str(a)` -/
def text : PyFloat → Str
  | .finite x => (reprLit x).text
  | .inf false => lit "inf"
  | .inf true => lit "-inf"
  | .nan => lit "nan"

end Py.PyFloat
