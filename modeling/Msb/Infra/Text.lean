import Mathlib

/-!
# Python text

A Python `str` is a sequence of code points, surrogates included, compared code point by code
point. Encoding it to UTF-8 is partial: a surrogate has no UTF-8 form.

* `encode_injective` — two texts with the same UTF-8 bytes are the same text
-/

namespace Py

instance neZero_codePoints : NeZero 0x110000 := ⟨by decide⟩

/-- A code point: any of `0 .. 0x10FFFF`, surrogates included. -/
abbrev CodePoint := Fin 0x110000

/-- A Python `str`. The order on it is the one `sorted` uses. -/
abbrev Str := List CodePoint

instance instLawfulBEqCodePoint : LawfulBEq CodePoint := inferInstance

instance instLawfulBEqStr : LawfulBEq Str := inferInstance

abbrev Bytes := List UInt8

/-- A literal of the source. -/
def lit (s : String) : Str := s.toList.map fun c => Fin.ofNat _ c.toNat

/-- `c.isspace()` -/
def isSpace (c : CodePoint) : Bool :=
  (9 ≤ c.val ∧ c.val ≤ 13) ∨ (28 ≤ c.val ∧ c.val ≤ 32) ∨ c.val = 133 ∨ c.val = 160 ∨ c.val = 5760 ∨
    (8192 ≤ c.val ∧ c.val ≤ 8202) ∨ c.val = 8232 ∨ c.val = 8233 ∨ c.val = 8239 ∨ c.val = 8287 ∨
    c.val = 12288

/-- `s.strip()` -/
def strip (s : Str) : Str := (s.dropWhile isSpace).rdropWhile isSpace

/-- What a Python call raises. The exceptions that a program raises itself carry their text;
`raised` is an exception class of the program. -/
inductive PyError where
  | valueError (message : Str)
  | runtimeError (message : Str)
  | permissionError (message : Str)
  | osError (message : Str)
  | databaseError (message : Str)
  | raised (name message : Str)
  | typeError
  | attributeError
  | jsonDecodeError
  | unicodeEncodeError
  deriving DecidableEq

/-- `if c: raise e` -/
def raiseIf (c : Prop) [Decidable c] (e : PyError) : Except PyError Unit :=
  if c then .error e else .ok ()

theorem raiseIf_eq_ok {c : Prop} [Decidable c] {e : PyError} {u : Unit} :
    raiseIf c e = .ok u ↔ ¬ c := by
  unfold raiseIf
  by_cases h : c <;> simp [h]

/-- A call followed by another returns what the second one returns. -/
theorem bind_eq_ok {ε α β : Type} {x : Except ε α} {f : α → Except ε β} {b : β} :
    x >>= f = .ok b ↔ ∃ a, x = .ok a ∧ f a = .ok b := by
  cases x with
  | error e => simp [bind, Except.bind]
  | ok a => simp [bind, Except.bind]

theorem exists_unit {p : Unit → Prop} : (∃ u, p u) ↔ p () := ⟨fun ⟨_, h⟩ => h, fun h => ⟨(), h⟩⟩

theorem map_eq_ok {ε α β : Type} {x : Except ε α} {f : α → β} {b : β} :
    x.map f = .ok b ↔ ∃ a, x = .ok a ∧ f a = b := by
  cases x with
  | error e => simp [Except.map]
  | ok a => simp [Except.map]

theorem toOption_eq_some {ε α : Type} {x : Except ε α} {a : α} :
    x.toOption = some a ↔ x = .ok a := by
  cases x with
  | error e => simp [Except.toOption]
  | ok b => simp [Except.toOption]

/-- A call on every element returns when each of them does. -/
theorem mapM_eq_ok {ε α β : Type} {f : α → Except ε β} : ∀ {l : List α} {m : List β},
    l.mapM f = .ok m ↔ List.Forall₂ (fun a b => f a = .ok b) l m
  | [], m => by
    rw [List.mapM_nil, List.forall₂_nil_left_iff]
    exact ⟨fun h => (Except.ok.inj h).symm, fun h => by rw [h]; rfl⟩
  | a :: l, m => by
    rw [List.mapM_cons, List.forall₂_cons_left_iff, bind_eq_ok]
    constructor
    · rintro ⟨b, hb, h⟩
      obtain ⟨bs, hbs, h⟩ := bind_eq_ok.mp h
      obtain rfl := Except.ok.inj h
      exact ⟨b, bs, hb, mapM_eq_ok.mp hbs, rfl⟩
    · rintro ⟨b, bs, hb, hbs, rfl⟩
      exact ⟨b, hb, bind_eq_ok.mpr ⟨bs, mapM_eq_ok.mpr hbs, rfl⟩⟩

/-- What the call on one element returns is among what is returned. -/
theorem exists_of_mapM_eq_ok {ε α β : Type} {f : α → Except ε β} {xs : List α} {ys : List β}
    (h : xs.mapM f = .ok ys) {x : α} (hx : x ∈ xs) : ∃ y ∈ ys, f x = .ok y := by
  obtain ⟨i, hi, rfl⟩ := List.mem_iff_getElem.mp hx
  have hall := List.forall₂_iff_get.mp (mapM_eq_ok.mp h)
  have hlt : i < ys.length := hall.1 ▸ hi
  exact ⟨_, List.getElem_mem hlt, hall.2 i hi hlt⟩

/-- A call on every element returns something when each of them does. -/
theorem mapM_isOk {ε α β : Type} {f : α → Except ε β} : ∀ {xs : List α},
    (∃ ys, xs.mapM f = .ok ys) ↔ ∀ x ∈ xs, ∃ y, f x = .ok y
  | [] => ⟨fun _ _ hx => absurd hx List.not_mem_nil, fun _ => ⟨[], rfl⟩⟩
  | x :: xs => by
    simp only [mapM_eq_ok, List.forall_mem_cons, List.forall₂_cons_left_iff,
      ← @mapM_isOk ε α β f xs]
    constructor
    · rintro ⟨_, y, ys, hy, hys, -⟩
      exact ⟨⟨y, hy⟩, ys, hys⟩
    · rintro ⟨⟨y, hy⟩, ys, hys⟩
      exact ⟨_, y, ys, hy, hys, rfl⟩

/-- What is returned comes from one of the elements. -/
theorem exists_of_mem_mapM {ε α β : Type} {f : α → Except ε β} {xs : List α} {ys : List β}
    (h : xs.mapM f = .ok ys) {y : β} (hy : y ∈ ys) : ∃ x ∈ xs, f x = .ok y := by
  obtain ⟨i, hi, rfl⟩ := List.mem_iff_getElem.mp hy
  have hall := List.forall₂_iff_get.mp (mapM_eq_ok.mp h)
  have hlt : i < xs.length := hall.1 ▸ hi
  exact ⟨_, List.getElem_mem hlt, hall.2 i hlt hi⟩

/-! ## UTF-8 -/

/-- The scalar value of a code point; a surrogate has none. -/
def scalar? (c : CodePoint) : Option Char :=
  if h : c.val.isValidChar then some (Char.ofNatAux c.val h) else none

theorem scalar?_injective {a b : CodePoint} {x : Char} (ha : scalar? a = some x)
    (hb : scalar? b = some x) : a = b := by
  unfold scalar? at ha hb
  split at ha <;> split at hb <;> simp_all
  have h := congrArg Char.toNat (ha.trans hb.symm)
  exact Fin.ext (by simpa [Char.ofNatAux, Char.toNat] using h)

theorem mapM_scalar?_injective : ∀ {a b : Str} {x : List Char},
    a.mapM scalar? = some x → b.mapM scalar? = some x → a = b
  | [], [], _, _, _ => rfl
  | [], _ :: _, _, ha, hb => by
    simp only [List.mapM_nil, Option.pure_def, Option.some.injEq] at ha
    subst ha
    simp [List.mapM_cons, Option.bind_eq_some_iff] at hb
  | _ :: _, [], _, ha, hb => by
    simp only [List.mapM_nil, Option.pure_def, Option.some.injEq] at hb
    subst hb
    simp [List.mapM_cons, Option.bind_eq_some_iff] at ha
  | c :: a, d :: b, _, ha, hb => by
    simp only [List.mapM_cons, Option.pure_def, Option.bind_eq_bind, Option.bind_eq_some_iff,
      Option.some.injEq] at ha hb
    obtain ⟨x, hx, xs, hxs, rfl⟩ := ha
    obtain ⟨y, hy, ys, hys, heq⟩ := hb
    obtain ⟨rfl, rfl⟩ := List.cons.inj heq
    rw [scalar?_injective hx hy, mapM_scalar?_injective hxs hys]

/-- `str.encode()`. `none` is `UnicodeEncodeError`. -/
def encode (s : Str) : Option Bytes :=
  (s.mapM scalar?).map fun cs => cs.flatMap String.utf8EncodeChar

/-- A text without surrogates has a UTF-8 form. -/
theorem encode_of_scalar {s : Str} (h : ∀ c ∈ s, (scalar? c).isSome = true) :
    ∃ b, encode s = some b := by
  have hmap : ∃ cs, s.mapM scalar? = some cs := by
    induction s with
    | nil => exact ⟨[], rfl⟩
    | cons c s ih =>
      obtain ⟨x, hx⟩ := Option.isSome_iff_exists.mp (h c List.mem_cons_self)
      obtain ⟨xs, hxs⟩ := ih fun d hd => h d (List.mem_cons_of_mem _ hd)
      exact ⟨x :: xs, by rw [List.mapM_cons, hx, hxs]; rfl⟩
  obtain ⟨cs, hcs⟩ := hmap
  exact ⟨_, by rw [encode, hcs]; rfl⟩

/-- `str.encode()`, raising. -/
def encodeE (s : Str) : Except PyError Bytes :=
  match encode s with
  | some b => .ok b
  | none => .error .unicodeEncodeError

theorem encodeE_eq_ok {s : Str} {b : Bytes} : encodeE s = .ok b ↔ encode s = some b := by
  unfold encodeE
  cases encode s <;> simp

theorem utf8_injective {a b : List Char}
    (h : a.flatMap String.utf8EncodeChar = b.flatMap String.utf8EncodeChar) : a = b := by
  have henc : a.utf8Encode = b.utf8Encode := by
    rw [List.utf8Encode, List.utf8Encode, h]
  have hdec := congrArg ByteArray.utf8Decode? henc
  simpa using hdec

/-- **Two texts with the same UTF-8 bytes are the same text.** -/
theorem encode_injective {a b : Str} {x : Bytes} (ha : encode a = some x)
    (hb : encode b = some x) : a = b := by
  unfold encode at ha hb
  obtain ⟨cs, hcs, rfl⟩ := Option.map_eq_some_iff.mp ha
  obtain ⟨ds, hds, heq⟩ := Option.map_eq_some_iff.mp hb
  obtain rfl := utf8_injective heq
  exact mapM_scalar?_injective hcs hds

end Py
