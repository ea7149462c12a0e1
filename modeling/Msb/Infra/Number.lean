import Msb.Infra.Text
import Msb.Infra.Float

/-!
# Number literals

The number literals of JSON as Python writes and reads them: a literal is kept in parts, so
that writing and scanning are inverse on the parts (`scanNumber_text`) and the value is computed
from the parts alone.

* `readInt_intLit`, `readFloat_reprLit` — a number written by Python reads back as the same number
-/

namespace Py

/-! ## Digits -/

/-- The decimal digits of `n`, most significant first. -/
def digitsOf (n : Nat) : List Nat := if n = 0 then [0] else (Nat.digits 10 n).reverse

def digitsVal (ds : List Nat) : Nat := Nat.ofDigits 10 ds.reverse

theorem digitsVal_digitsOf (n : Nat) : digitsVal (digitsOf n) = n := by
  unfold digitsOf digitsVal
  split
  · next h => simp [h]
  · rw [List.reverse_reverse, Nat.ofDigits_digits]

theorem digitsVal_append (a b : List Nat) :
    digitsVal (a ++ b) = digitsVal a * 10 ^ b.length + digitsVal b := by
  unfold digitsVal
  rw [List.reverse_append, Nat.ofDigits_append, List.length_reverse]
  ring

@[simp] theorem digitsVal_zero_cons (ds : List Nat) : digitsVal (0 :: ds) = digitsVal ds := by
  rw [show (0 :: ds) = [0] ++ ds from rfl, digitsVal_append]
  simp [digitsVal]

@[simp] theorem digitsVal_replicate_zero_append (n : Nat) (ds : List Nat) :
    digitsVal (List.replicate n 0 ++ ds) = digitsVal ds := by
  induction n with
  | zero => rfl
  | succ n ih => rw [List.replicate_succ, List.cons_append, digitsVal_zero_cons, ih]

theorem digitsVal_append_replicate_zero (n : Nat) (ds : List Nat) :
    digitsVal (ds ++ List.replicate n 0) = digitsVal ds * 10 ^ n := by
  have h := digitsVal_replicate_zero_append n []
  rw [List.append_nil] at h
  rw [digitsVal_append, h, List.length_replicate]
  simp [digitsVal]

theorem digitsOf_ne_nil (n : Nat) : digitsOf n ≠ [] := by
  unfold digitsOf
  split
  · simp
  · next h => simp [Nat.digits_ne_nil_iff_ne_zero.mpr h]

theorem digitsOf_lt (n : Nat) : ∀ d ∈ digitsOf n, d < 10 := by
  intro d hd
  unfold digitsOf at hd
  split at hd
  · simp at hd; omega
  · exact Nat.digits_lt_base (by norm_num) (List.mem_reverse.mp hd)

/-- A positive number is written without a leading zero. -/
theorem digitsOf_head_ne_zero {n : Nat} (h : n ≠ 0) : (digitsOf n).head? ≠ some 0 := by
  unfold digitsOf
  rw [if_neg h, List.head?_reverse]
  intro hlast
  have hne : Nat.digits 10 n ≠ [] := Nat.digits_ne_nil_iff_ne_zero.mpr h
  rw [List.getLast?_eq_some_getLast hne, Option.some.injEq] at hlast
  exact Nat.getLast_digit_ne_zero 10 h hlast

def digitChar (d : Nat) : CodePoint := Fin.ofNat _ (48 + d)

def digit? (c : CodePoint) : Option Nat :=
  if 48 ≤ c.val ∧ c.val ≤ 57 then some (c.val - 48) else none

theorem digit?_digitChar {d : Nat} (h : d < 10) : digit? (digitChar d) = some d := by
  have hall : ∀ e ∈ List.range 10, digit? (digitChar e) = some e := by decide
  exact hall d (List.mem_range.mpr h)

/-- The digits at the front. -/
def takeDigits : Str → List Nat × Str
  | [] => ([], [])
  | c :: rest =>
    match digit? c with
    | some d => (d :: (takeDigits rest).1, (takeDigits rest).2)
    | none => ([], c :: rest)

/-- Nothing at the front that a number could go on with. -/
def NumEnd (rest : Str) : Prop :=
  ∀ c ∈ rest.head?, digit? c = none ∧ c ≠ 46 ∧ c ≠ 101 ∧ c ≠ 69

theorem takeDigits_append : ∀ {ds : List Nat} {rest : Str}, (∀ d ∈ ds, d < 10) →
    (∀ c ∈ rest.head?, digit? c = none) → takeDigits (ds.map digitChar ++ rest) = (ds, rest)
  | [], [], _, _ => rfl
  | [], c :: rest, _, h => by simp [takeDigits, h c rfl]
  | d :: ds, rest, hd, h => by
    have ih := takeDigits_append (fun x hx => hd x (List.mem_cons_of_mem _ hx)) h
    rw [List.map_cons, List.cons_append, takeDigits, digit?_digitChar (hd d List.mem_cons_self)]
    simp only [ih]

/-! ## Literals -/

/-- The parts of a number literal. -/
structure NumLit where
  neg : Bool
  int : List Nat
  frac : Option (List Nat)
  exp : Option (Bool × List Nat)
  deriving DecidableEq

namespace NumLit

def isFloat (l : NumLit) : Bool := l.frac.isSome || l.exp.isSome

/-- All digits, the decimal point left out. -/
def mantissa (l : NumLit) : Nat := digitsVal (l.int ++ l.frac.getD [])

/-- The power of ten that puts the decimal point back. -/
def scale (l : NumLit) : Int :=
  (match l.exp with
    | none => 0
    | some (true, ds) => -(digitsVal ds : Int)
    | some (false, ds) => digitsVal ds) - (l.frac.getD []).length

def fracText : Option (List Nat) → Str
  | none => []
  | some ds => 46 :: ds.map digitChar

def expText : Option (Bool × List Nat) → Str
  | none => []
  | some (neg, ds) => 101 :: (if neg then 45 else 43) :: ds.map digitChar

def text (l : NumLit) : Str :=
  (if l.neg then [45] else []) ++ (l.int.map digitChar ++ (fracText l.frac ++ expText l.exp))

/-- What the grammar asks of the parts. -/
structure WellFormed (l : NumLit) : Prop where
  int_lt : ∀ d ∈ l.int, d < 10
  int_head : l.int = [0] ∨ (l.int ≠ [] ∧ l.int.head? ≠ some 0)
  frac_lt : ∀ ds, l.frac = some ds → ds ≠ [] ∧ ∀ d ∈ ds, d < 10
  exp_lt : ∀ p, l.exp = some p → p.2 ≠ [] ∧ ∀ d ∈ p.2, d < 10

end NumLit

/-! ## Scanning -/

/-- `-?(0|[1-9][0-9]*)` after the sign. -/
def scanIntPart (s : Str) : Option (List Nat × Str) :=
  match s with
  | [] => none
  | c :: rest =>
    match digit? c with
    | none => none
    | some 0 => some ([0], rest)
    | some (d + 1) => some ((d + 1) :: (takeDigits rest).1, (takeDigits rest).2)

/-- `(\.[0-9]+)?` -/
def scanFrac (s : Str) : Option (List Nat) × Str :=
  match s with
  | [] => (none, [])
  | c :: rest =>
    if c = 46 then
      match takeDigits rest with
      | ([], _) => (none, c :: rest)
      | (ds, rest') => (some ds, rest')
    else (none, c :: rest)

/-- An optional sign. -/
def scanSign (s : Str) : Bool × Str :=
  match s with
  | [] => (false, [])
  | c :: rest =>
    if c = 45 then (true, rest) else if c = 43 then (false, rest) else (false, c :: rest)

/-- `([eE][-+]?[0-9]+)?` -/
def scanExp (s : Str) : Option (Bool × List Nat) × Str :=
  match s with
  | [] => (none, [])
  | c :: rest =>
    if c = 101 ∨ c = 69 then
      match takeDigits (scanSign rest).2 with
      | ([], _) => (none, c :: rest)
      | (ds, rest') => (some ((scanSign rest).1, ds), rest')
    else (none, c :: rest)

/-- The parts of the number at the front, and what follows it. -/
def scanUnsigned (neg : Bool) (s : Str) : Option (NumLit × Str) :=
  (scanIntPart s).map fun i =>
    let f := scanFrac i.2
    let e := scanExp f.2
    (⟨neg, i.1, f.1, e.1⟩, e.2)

def scanNumber (s : Str) : Option (NumLit × Str) :=
  match s with
  | [] => none
  | c :: rest => if c = 45 then scanUnsigned true rest else scanUnsigned false (c :: rest)

theorem digitChar_ne_of_lt {d : Nat} (h : d < 10) : digitChar d ≠ 45 := by
  have hall : ∀ e ∈ List.range 10, digitChar e ≠ 45 := by decide
  exact hall d (List.mem_range.mpr h)

variable {l : NumLit} {rest : Str} {ds : List Nat}

theorem scanIntPart_text (hl : l.WellFormed) (h : ∀ c ∈ rest.head?, digit? c = none) :
    scanIntPart (l.int.map digitChar ++ rest) = some (l.int, rest) := by
  rcases hl.int_head with h0 | ⟨hne, hhead⟩
  · rw [h0]
    simp only [List.map_cons, List.map_nil, List.cons_append, List.nil_append, scanIntPart,
      digit?_digitChar (show 0 < 10 by norm_num)]
  · have hlt := hl.int_lt
    cases hi : l.int with
    | nil => exact absurd hi hne
    | cons d ds =>
      rw [hi] at hlt hhead
      have hd : d ≠ 0 := by simpa using hhead
      obtain ⟨d, rfl⟩ := Nat.exists_eq_succ_of_ne_zero hd
      simp only [List.map_cons, List.cons_append, scanIntPart,
        digit?_digitChar (hlt _ List.mem_cons_self),
        takeDigits_append (fun x hx => hlt x (List.mem_cons_of_mem _ hx)) h, Nat.succ_eq_add_one]

theorem scanFrac_text (hl : l.WellFormed) (h : ∀ c ∈ rest.head?, digit? c = none ∧ c ≠ 46) :
    scanFrac (NumLit.fracText l.frac ++ rest) = (l.frac, rest) := by
  cases hf : l.frac with
  | none =>
    cases rest with
    | nil => rfl
    | cons c rest =>
      simp only [NumLit.fracText, List.nil_append, scanFrac]
      rw [if_neg (h c rfl).2]
  | some ds =>
    obtain ⟨hne, hlt⟩ := hl.frac_lt ds hf
    simp only [NumLit.fracText, List.cons_append, scanFrac, if_true,
      takeDigits_append hlt fun c hc => (h c hc).1]

theorem scanExp_text (hl : l.WellFormed) (h : NumEnd rest) :
    scanExp (NumLit.expText l.exp ++ rest) = (l.exp, rest) := by
  cases he : l.exp with
  | none =>
    cases rest with
    | nil => rfl
    | cons c rest =>
      obtain ⟨_, _, h1, h2⟩ := h c rfl
      simp only [NumLit.expText, List.nil_append, scanExp]
      rw [if_neg (by simp [h1, h2])]
  | some p =>
    obtain ⟨neg, ds⟩ := p
    obtain ⟨hne, hlt⟩ := hl.exp_lt _ he
    have hsign : ∀ t : Str, scanSign ((if neg then 45 else 43) :: t) = (neg, t) := by
      intro t; cases neg <;> rfl
    simp only [NumLit.expText, List.cons_append, scanExp, true_or, if_true, hsign,
      takeDigits_append hlt fun c hc => (h c hc).1]

/-- **Scanning a written literal gives its parts back.** -/
theorem scanNumber_text (hl : l.WellFormed) (h : NumEnd rest) :
    scanNumber (l.text ++ rest) = some (l, rest) := by
  have hE : scanExp (NumLit.expText l.exp ++ rest) = (l.exp, rest) := scanExp_text hl h
  have hexp : ∀ c ∈ (NumLit.expText l.exp ++ rest).head?, digit? c = none ∧ c ≠ 46 := by
    intro c hc
    cases hx : l.exp with
    | none => rw [hx] at hc; exact ⟨(h c hc).1, (h c hc).2.1⟩
    | some p => rw [hx] at hc; cases hc; decide
  have hF := scanFrac_text hl hexp
  have hfrac : ∀ c ∈ (NumLit.fracText l.frac ++ (NumLit.expText l.exp ++ rest)).head?,
      digit? c = none := by
    intro c hc
    cases hx : l.frac with
    | none => rw [hx] at hc; exact (hexp c hc).1
    | some ds => rw [hx] at hc; cases hc; decide
  have hI := scanIntPart_text hl hfrac
  have hU : ∀ neg, scanUnsigned neg (l.int.map digitChar
      ++ (NumLit.fracText l.frac ++ (NumLit.expText l.exp ++ rest)))
        = some (⟨neg, l.int, l.frac, l.exp⟩, rest) := by
    intro neg
    simp only [scanUnsigned, hI, Option.map_some, hF, hE]
  rw [NumLit.text, List.append_assoc, List.append_assoc, List.append_assoc]
  cases hneg : l.neg with
  | true =>
    simp only [if_true, List.cons_append, List.nil_append, scanNumber, hU]
    rw [← hneg]
  | false =>
    have hcons : ∃ d ds, l.int = d :: ds := by
      rcases hl.int_head with h0 | ⟨hne, _⟩
      · exact ⟨0, [], h0⟩
      · exact List.exists_cons_of_ne_nil hne
    obtain ⟨d, ds, hi⟩ := hcons
    have hd := digitChar_ne_of_lt (hl.int_lt d (by rw [hi]; exact List.mem_cons_self))
    have hU' := hU false
    rw [hi, List.map_cons, List.cons_append] at hU'
    rw [hi]
    simp only [Bool.false_eq_true, if_false, List.nil_append, List.map_cons, List.cons_append,
      scanNumber]
    rw [if_neg hd, hU', ← hneg, ← hi]

/-! ## `int` -/

def intLit (i : Int) : NumLit := ⟨decide (i < 0), digitsOf i.natAbs, none, none⟩

def readInt (l : NumLit) : Int := if l.neg then -(l.mantissa : Int) else l.mantissa

theorem intLit_wellFormed (i : Int) : (intLit i).WellFormed where
  int_lt := digitsOf_lt _
  int_head := by
    by_cases h : i.natAbs = 0
    · left; simp [intLit, digitsOf, h]
    · exact Or.inr ⟨digitsOf_ne_nil _, digitsOf_head_ne_zero h⟩
  frac_lt := by simp [intLit]
  exp_lt := by simp [intLit]

theorem readInt_intLit (i : Int) : readInt (intLit i) = i := by
  simp only [readInt, intLit, NumLit.mantissa, Option.getD_none, List.append_nil,
    digitsVal_digitsOf, decide_eq_true_eq]
  split <;> omega

/-! ## `float` -/

/-- The trailing zeros moved into the exponent. -/
def stripZeros (d : Nat) (k : Int) : Nat × Int :=
  if d ≠ 0 ∧ d % 10 = 0 then stripZeros (d / 10) (k + 1) else (d, k)
termination_by d
decreasing_by exact Nat.div_lt_self (by omega) (by omega)

theorem stripZeros_value (d : Nat) (k : Int) :
    ((stripZeros d k).1 : ℚ) * (10 : ℚ) ^ (stripZeros d k).2 = d * (10 : ℚ) ^ k := by
  fun_induction stripZeros d k with
  | case1 d k h ih =>
    have hd : (d : ℚ) = (d / 10 : Nat) * 10 := by
      have : d = d / 10 * 10 := by omega
      exact_mod_cast this
    rw [ih, zpow_add₀ (by norm_num), zpow_one, hd]
    field_simp
  | case2 => rfl

theorem stripZeros_ne_zero {d : Nat} (k : Int) (h : d ≠ 0) : (stripZeros d k).1 ≠ 0 := by
  fun_induction stripZeros d k with
  | case1 d k hd ih => exact ih (by omega)
  | case2 => exact h

/-- An exponent has two digits at least. -/
def padTwo (ds : List Nat) : List Nat := if ds.length < 2 then 0 :: ds else ds

theorem padTwo_ne_nil (h : ds ≠ []) : padTwo ds ≠ [] := by
  unfold padTwo
  split
  · simp
  · exact h

theorem padTwo_lt (h : ∀ d ∈ ds, d < 10) : ∀ d ∈ padTwo ds, d < 10 := by
  unfold padTwo
  split
  · intro d hd
    rcases List.mem_cons.mp hd with rfl | hd
    · norm_num
    · exact h d hd
  · exact h

@[simp] theorem digitsVal_padTwo (ds : List Nat) : digitsVal (padTwo ds) = digitsVal ds := by
  unfold padTwo
  split
  · exact digitsVal_zero_cons ds
  · rfl

/-- The layout of `repr`: `p` is where the decimal point falls in the digits `ds`. -/
def layout (neg : Bool) (ds : List Nat) (p : Int) : NumLit :=
  if p ≤ -4 ∨ 16 < p then
    ⟨neg, ds.take 1, if ds.length = 1 then none else some (ds.drop 1),
      some (decide (p - 1 < 0), padTwo (digitsOf (p - 1).natAbs))⟩
  else if p ≤ 0 then ⟨neg, [0], some (List.replicate (-p).toNat 0 ++ ds), none⟩
  else if ds.length ≤ p then
    ⟨neg, ds ++ List.replicate (p - ds.length).toNat 0, some [0], none⟩
  else ⟨neg, ds.take p.toNat, some (ds.drop p.toNat), none⟩

/-- `float.__repr__` of a finite value. -/
def reprLit (x : Finite64) : NumLit :=
  if x.m = 0 then ⟨x.neg, [0], some [0], none⟩
  else
    let s := stripZeros (shortest x).1 (shortest x).2
    layout x.neg (digitsOf s.1) ((digitsOf s.1).length + s.2)

/-- `float(literal)`. -/
def readFloat (l : NumLit) : PyFloat := ofDecimal l.neg l.mantissa l.scale

theorem layout_wellFormed (neg : Bool) (p : Int) (hne : ds ≠ []) (hhead : ds.head? ≠ some 0)
    (hlt : ∀ d ∈ ds, d < 10) : (layout neg ds p).WellFormed := by
  have hhead' : ∀ {xs ys : List Nat}, xs ++ ys = ds → xs ≠ [] → xs.head? ≠ some 0 := by
    intro xs ys h hx
    cases xs with
    | nil => exact absurd rfl hx
    | cons x xs => rw [← h] at hhead; simpa using hhead
  have htake : ∀ n, 0 < n → ds.take n ≠ [] := by
    intro n hn h
    rcases List.take_eq_nil_iff.mp h with h | h
    · omega
    · exact hne h
  unfold layout
  split
  · -- in exponent form one digit stands before the point
    refine ⟨fun d hd => hlt d (List.mem_of_mem_take hd), Or.inr ⟨htake 1 (by norm_num), ?_⟩, ?_, ?_⟩
    · exact hhead' (List.take_append_drop 1 ds) (htake 1 (by norm_num))
    · intro fs hfs
      simp only at hfs
      split at hfs
      · cases hfs
      · next hlen =>
        cases hfs
        refine ⟨?_, fun d hd => hlt d (List.mem_of_mem_drop hd)⟩
        have : ds.length ≠ 0 := by simpa using hne
        exact fun h => by have := List.drop_eq_nil_iff.mp h; omega
    · rintro q hq
      cases hq
      exact ⟨padTwo_ne_nil (digitsOf_ne_nil _), padTwo_lt (digitsOf_lt _)⟩
  · split
    · -- a number below one: zeros follow the point
      refine ⟨by simp, Or.inl rfl, ?_, by simp⟩
      rintro fs hfs
      cases hfs
      refine ⟨by simp [hne], ?_⟩
      intro d hd
      rcases List.mem_append.mp hd with h | h
      · rw [(List.mem_replicate.mp h).2]; norm_num
      · exact hlt d h
    · split
      · -- a whole number: zeros stand before the point
        refine ⟨?_, Or.inr ⟨by simp [hne], ?_⟩, ?_, by simp⟩
        · intro d hd
          rcases List.mem_append.mp hd with h | h
          · exact hlt d h
          · rw [(List.mem_replicate.mp h).2]; norm_num
        · rw [List.head?_append_of_ne_nil _ hne]; exact hhead
        · rintro fs hfs
          cases hfs
          exact ⟨by simp, by simp⟩
      · next hp0 hlen =>
        have hp : 0 < p.toNat := by omega
        refine ⟨fun d hd => hlt d (List.mem_of_mem_take hd), Or.inr ⟨htake _ hp, ?_⟩, ?_, by simp⟩
        · exact hhead' (List.take_append_drop _ ds) (htake _ hp)
        · rintro fs hfs
          cases hfs
          refine ⟨fun h => ?_, fun d hd => hlt d (List.mem_of_mem_drop hd)⟩
          have := List.drop_eq_nil_iff.mp h
          omega

/-- Every layout of the digits has the same value. -/
theorem layout_value (neg : Bool) (k : Int) (hne : ds ≠ []) :
    ((layout neg ds (ds.length + k)).mantissa : ℚ)
        * (10 : ℚ) ^ (layout neg ds (ds.length + k)).scale
      = digitsVal ds * (10 : ℚ) ^ k := by
  have hlen : 0 < ds.length := List.length_pos_iff.mpr hne
  unfold layout
  split
  · have hfrac : ∀ o : Option (List Nat), o = (if ds.length = 1 then none else some (ds.drop 1)) →
        ds.take 1 ++ o.getD [] = ds ∧ ((o.getD []).length : Int) = ds.length - 1 := by
      rintro o rfl
      split
      · next h1 => exact ⟨by simp [List.take_of_length_le (Nat.le_of_eq h1)], by simp [h1]⟩
      · exact ⟨List.take_append_drop 1 ds, by simp; omega⟩
    obtain ⟨h1, h2⟩ := hfrac _ rfl
    simp only [NumLit.mantissa, NumLit.scale, h1, h2]
    congr 2
    by_cases hneg : (ds.length : Int) + k - 1 < 0
    · simp only [hneg, decide_true, digitsVal_padTwo, digitsVal_digitsOf]
      omega
    · simp only [hneg, decide_false, digitsVal_padTwo, digitsVal_digitsOf]
      omega
  · split
    · simp only [NumLit.mantissa, NumLit.scale, Option.getD_some, List.cons_append, List.nil_append,
        digitsVal_zero_cons, digitsVal_replicate_zero_append, List.length_append,
        List.length_replicate]
      congr 2
      push_cast
      omega
    · split
      · next hk =>
        obtain ⟨n, rfl⟩ := Int.eq_ofNat_of_zero_le (show 0 ≤ k by omega)
        have hn : ((ds.length : Int) + (n : Int) - ds.length).toNat = n := by omega
        simp only [NumLit.mantissa, NumLit.scale, Option.getD_some, hn, List.length_singleton]
        rw [digitsVal_append, digitsVal_append_replicate_zero]
        simp [digitsVal, zpow_natCast]
      · simp only [NumLit.mantissa, NumLit.scale, Option.getD_some, List.take_append_drop,
          List.length_drop]
        congr 2
        omega

theorem reprLit_wellFormed (x : Finite64) : (reprLit x).WellFormed := by
  unfold reprLit
  split
  · exact ⟨by simp, Or.inl rfl, by rintro ds hds; cases hds; simp, by simp⟩
  · next hm =>
    have hshort := ofDecimal_shortest x hm
    have hne : (shortest x).1 ≠ 0 := by
      intro h0
      rw [h0] at hshort
      simp only [ofDecimal, if_true, PyFloat.zero, PyFloat.finite.injEq] at hshort
      exact hm (by rw [← hshort])
    exact layout_wellFormed _ _ (digitsOf_ne_nil _)
      (digitsOf_head_ne_zero (stripZeros_ne_zero _ hne)) (digitsOf_lt _)

theorem layout_neg (neg : Bool) (ds : List Nat) (p : Int) : (layout neg ds p).neg = neg := by
  unfold layout
  repeat' split
  all_goals rfl

theorem layout_isFloat (neg : Bool) (ds : List Nat) (p : Int) :
    (layout neg ds p).isFloat = true := by
  unfold layout
  repeat' split
  all_goals simp [NumLit.isFloat]

theorem reprLit_isFloat (x : Finite64) : (reprLit x).isFloat = true := by
  unfold reprLit
  split
  · rfl
  · exact layout_isFloat _ _ _

/-- **What `repr` writes reads back to the value.** -/
theorem readFloat_reprLit (x : Finite64) : readFloat (reprLit x) = .finite x := by
  by_cases hm : x.m = 0
  · obtain ⟨neg, m, e, hc⟩ := x
    simp only at hm
    subst hm
    have he : e = -1074 := by
      rcases hc.2.2.2 with h | h
      · norm_num at h
      · exact h
    subst he
    have hval : digitsVal [0, 0] = 0 := rfl
    simp [reprLit, readFloat, ofDecimal, NumLit.mantissa, hval, PyFloat.zero]
  · have hval := layout_value x.neg (stripZeros (shortest x).1 (shortest x).2).2
      (digitsOf_ne_nil (stripZeros (shortest x).1 (shortest x).2).1)
    rw [digitsVal_digitsOf, stripZeros_value] at hval
    rw [readFloat, reprLit, if_neg hm, layout_neg, ofDecimal_congr hval, ofDecimal_shortest x hm]

end Py
