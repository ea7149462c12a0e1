import Msb.Infra.Number

/-!
# Lines of a text file

What the program does to the text of a line-oriented file: decoding, splitting into lines,
replacing, and the numbers and times that it formats with a fixed width.

* `decode_encode` — decoding gives back what was encoded
* `splitlines_lines` — lines without separators, each ended by a newline, split back into the lines
-/

namespace Py

/-! ## Decoding -/

/-- `b.decode()`. `none` is `UnicodeDecodeError`. -/
def decode (b : Bytes) : Option Str :=
  (ByteArray.utf8Decode? ⟨b.toArray⟩).map fun cs => cs.toList.map fun c => Fin.ofNat _ c.toNat

variable {c : CodePoint} {s : Str}

theorem ofNat_scalar? {x : Char} (h : scalar? c = some x) :
    (Fin.ofNat _ x.toNat : CodePoint) = c := by
  unfold scalar? at h
  split at h
  · obtain rfl := Option.some.inj h
    refine Fin.ext ?_
    simp [Char.ofNatAux, Char.toNat]
  · cases h

theorem mapM_scalar?_eq_some : ∀ {s : Str} {cs : List Char}, s.mapM scalar? = some cs →
    cs.map (fun c => (Fin.ofNat _ c.toNat : CodePoint)) = s
  | [], cs, h => by
    obtain rfl := Option.some.inj h
    rfl
  | c :: s, cs, h => by
    simp only [List.mapM_cons, Option.pure_def, Option.bind_eq_bind, Option.bind_eq_some_iff,
      Option.some.injEq] at h
    obtain ⟨x, hx, xs, hxs, rfl⟩ := h
    rw [List.map_cons, ofNat_scalar? hx, mapM_scalar?_eq_some hxs]

/-- **Decoding gives back what was encoded.** -/
theorem decode_encode {b : Bytes} (h : encode s = some b) : decode b = some s := by
  unfold encode at h
  obtain ⟨cs, hcs, rfl⟩ := Option.map_eq_some_iff.mp h
  have hbytes : (⟨(cs.flatMap String.utf8EncodeChar).toArray⟩ : ByteArray) = cs.utf8Encode := by
    rw [List.utf8Encode]
    exact ByteArray.ext (by simp)
  rw [decode, hbytes]
  simpa using mapM_scalar?_eq_some hcs

theorem encode_append {t : Str} {a b : Bytes} (ha : encode s = some a) (hb : encode t = some b) :
    encode (s ++ t) = some (a ++ b) := by
  unfold encode at ha hb ⊢
  obtain ⟨cs, hcs, rfl⟩ := Option.map_eq_some_iff.mp ha
  obtain ⟨ds, hds, rfl⟩ := Option.map_eq_some_iff.mp hb
  rw [List.mapM_append, hcs, hds]
  simp

/-! ## Lines -/

/-- The separators of `s.splitlines()`. -/
def isLineEnd (c : CodePoint) : Bool :=
  (10 ≤ c.val ∧ c.val ≤ 13) ∨ (28 ≤ c.val ∧ c.val ≤ 30) ∨ c.val = 133 ∨ c.val = 8232 ∨ c.val = 8233

/-- `c` at the front of the first line. -/
def consLine (c : CodePoint) : List Str → List Str
  | [] => [[c]]
  | l :: ls => (c :: l) :: ls

/-- The lines of a text; after a carriage return, a newline belongs to the same separator. -/
def linesAfter (cr : Bool) : Str → List Str
  | [] => []
  | c :: s =>
    if cr ∧ c = 10 then linesAfter false s
    else if isLineEnd c then [] :: linesAfter (c = 13) s
    else consLine c (linesAfter false s)

/-- `s.splitlines()` -/
def splitlines (s : Str) : List Str := linesAfter false s

theorem linesAfter_line {l : Str} (h : ∀ c ∈ l, isLineEnd c = false) (s : Str) :
    linesAfter false (l ++ 10 :: s) = l :: linesAfter false s := by
  induction l with
  | nil => simp [linesAfter, isLineEnd]
  | cons c l ih =>
    have hc := h c List.mem_cons_self
    rw [List.cons_append, linesAfter, ih fun d hd => h d (List.mem_cons_of_mem _ hd)]
    simp [hc, consLine]

/-- **Lines without separators, each ended by a newline, split back into the lines.** -/
theorem splitlines_lines {lines : List Str} (h : ∀ l ∈ lines, ∀ c ∈ l, isLineEnd c = false) :
    splitlines (lines.flatMap (· ++ [10])) = lines := by
  unfold splitlines
  induction lines with
  | nil => rfl
  | cons l ls ih =>
    rw [List.flatMap_cons, List.append_assoc, List.cons_append, List.nil_append,
      linesAfter_line (h l List.mem_cons_self), ih fun m hm => h m (List.mem_cons_of_mem _ hm)]

/-- `universalNewlines`; after a carriage return, a newline belongs to the same line end. -/
def newlinesAfter (cr : Bool) : Str → Str
  | [] => []
  | c :: s =>
    if cr ∧ c = 10 then newlinesAfter false s
    else if c = 13 then 10 :: newlinesAfter true s
    else c :: newlinesAfter false s

/-- Text mode reads every line end as a newline. -/
def universalNewlines (s : Str) : Str := newlinesAfter false s

theorem universalNewlines_of_not_mem (h : 13 ∉ s) : universalNewlines s = s := by
  unfold universalNewlines
  induction s with
  | nil => rfl
  | cons c s ih =>
    have hc : c ≠ 13 := fun e => h (e ▸ List.mem_cons_self)
    rw [newlinesAfter, ih fun m => h (List.mem_cons_of_mem _ m)]
    simp [hc]

/-- A text with a character that is no white space is not blank. -/
theorem strip_ne_nil (hc : c ∈ s) (hspace : isSpace c = false) :
    strip s ≠ [] := by
  have hmem : c ∈ s.dropWhile isSpace := by
    have h := List.takeWhile_append_dropWhile (p := isSpace) (l := s)
    rw [← h, List.mem_append] at hc
    rcases hc with hc | hc
    · have := List.mem_takeWhile_imp hc
      rw [hspace] at this
      cases this
    · exact hc
  unfold strip
  rw [Ne, List.rdropWhile_eq_nil_iff]
  intro hall
  have := hall c hmem
  rw [hspace] at this
  cases this

/-- A text without white space at its ends is its own `strip`. -/
theorem strip_eq_self (h : ∀ c ∈ s, isSpace c = false) : strip s = s := by
  unfold strip
  have hdrop : s.dropWhile isSpace = s := by
    rw [List.dropWhile_eq_self_iff]
    intro hlen
    simpa using h _ (List.getElem_mem hlen)
  rw [hdrop, List.rdropWhile_eq_self_iff]
  intro hne
  simpa using h _ (List.getLast_mem hne)

/-! ## Splitting at a character -/

/-- The first `c` of a text splits it in one way. -/
theorem split_at {c : CodePoint} : ∀ {s t a b : Str}, c ∉ s → c ∉ t → s ++ c :: a = t ++ c :: b →
    s = t ∧ a = b
  | [], [], _, _, _, _, h => ⟨rfl, (List.cons.inj h).2⟩
  | [], d :: _, _, _, _, ht, h => absurd ((List.cons.inj h).1 ▸ List.mem_cons_self) ht
  | d :: _, [], _, _, hs, _, h => absurd ((List.cons.inj h).1 ▸ List.mem_cons_self) hs
  | d :: s, e :: t, _, _, hs, ht, h => by
    obtain ⟨hhead, htail⟩ := List.cons.inj h
    obtain ⟨hs', hab⟩ :=
      split_at (fun m => hs (List.mem_cons_of_mem _ m))
      (fun m => ht (List.mem_cons_of_mem _ m)) htail
    exact ⟨by rw [hhead, hs'], hab⟩

/-- **A text that is joined by a character its parts do not have** gives the parts back. -/
theorem intercalate_injective {c : CodePoint} : ∀ {a b : List Str}, a.length = b.length →
    (∀ s ∈ a, c ∉ s) → (∀ s ∈ b, c ∉ s) → List.intercalate [c] a = List.intercalate [c] b → a = b
  | [], [], _, _, _, _ => rfl
  | [s], [t], _, _, _, h => by
    rw [List.intercalate_singleton, List.intercalate_singleton] at h
    rw [h]
  | s :: s' :: a, t :: t' :: b, hlen, ha, hb, h => by
    rw [List.intercalate_cons_cons, List.intercalate_cons_cons, List.append_assoc,
      List.append_assoc] at h
    have h : s ++ c :: _ = t ++ c :: _ := h
    obtain ⟨hhead, htail⟩ := split_at (ha s List.mem_cons_self) (hb t List.mem_cons_self) h
    rw [hhead, intercalate_injective (Nat.succ.inj hlen)
      (fun u hu => ha u (List.mem_cons_of_mem _ hu))
      (fun u hu => hb u (List.mem_cons_of_mem _ hu)) htail]

/-! ## Replacing -/

/-- `replace` with `k` characters of a match still to be skipped. -/
def replaceAfter (old new : Str) : Nat → Str → Str
  | _, [] => []
  | k + 1, _ :: s => replaceAfter old new k s
  | 0, c :: s =>
    if old.isPrefixOf (c :: s) then new ++ replaceAfter old new (old.length - 1) s
    else c :: replaceAfter old new 0 s

/-- `s.replace(old, new)`, for an `old` that is not empty. -/
def replace (old new s : Str) : Str := replaceAfter old new 0 s

/-- A text that lacks a character of `old` is left as it is. -/
theorem replace_of_not_mem {old new : Str} (hc : c ∈ old) (h : c ∉ s) :
    replace old new s = s := by
  unfold replace
  induction s with
  | nil => rfl
  | cons d s ih =>
    have hs : c ∉ s := fun m => h (List.mem_cons_of_mem _ m)
    have hmatch : ¬ old.isPrefixOf (d :: s) = true := fun hp =>
      h ((List.isPrefixOf_iff_prefix.mp hp).subset hc)
    rw [replaceAfter, if_neg hmatch, ih hs]

/-- Replacing a character by nothing drops it. -/
theorem replace_drop (c : CodePoint) (s : Str) : replace [c] [] s = s.filter fun d => d ≠ c := by
  unfold replace
  induction s with
  | nil => rfl
  | cons d s ih =>
    rw [replaceAfter, List.length_singleton]
    by_cases hd : d = c
    · simp [hd, ih]
    · simp [hd, Ne.symm hd, ih]

/-! ## Fixed widths -/

/-- `f"{n:0wd}"` -/
def zeroPad (w n : Nat) : Str :=
  (List.replicate (w - (digitsOf n).length) 0 ++ digitsOf n).map digitChar

theorem zeroPad_digits (w n : Nat) :
    ∃ ds : List Nat, zeroPad w n = ds.map digitChar ∧ (∀ d ∈ ds, d < 10) ∧ digitsVal ds = n := by
  refine ⟨_, rfl, ?_, ?_⟩
  · simp only [List.forall_mem_append]
    exact ⟨fun d hd => by simp [(List.mem_replicate.mp hd).2], digitsOf_lt n⟩
  · rw [digitsVal_replicate_zero_append, digitsVal_digitsOf]

theorem digitsOf_length_le {w n : Nat} (hw : 0 < w) (h : n < 10 ^ w) : (digitsOf n).length ≤ w := by
  unfold digitsOf
  split
  · exact hw
  · rw [List.length_reverse]
    exact (Nat.digits_length_le_iff (by norm_num) n).mpr h

/-- A number below `10 ^ w` fills exactly `w` digits. -/
theorem zeroPad_length {w n : Nat} (hw : 0 < w) (h : n < 10 ^ w) : (zeroPad w n).length = w := by
  have hle := digitsOf_length_le hw h
  rw [zeroPad, List.length_map, List.length_append, List.length_replicate]
  omega

/-- A time of the clock, in UTC. -/
structure UtcTime where
  year : Nat
  month : Nat
  day : Nat
  hour : Nat
  minute : Nat
  second : Nat
  micro : Nat
  deriving DecidableEq

/-- `datetime.now(timezone.utc).isoformat()`: the microseconds are left out when there are none. -/
def UtcTime.isoformat (t : UtcTime) : Str :=
  zeroPad 4 t.year ++ lit "-" ++ zeroPad 2 t.month ++ lit "-" ++ zeroPad 2 t.day ++ lit "T" ++
    zeroPad 2 t.hour ++ lit ":" ++ zeroPad 2 t.minute ++ lit ":" ++ zeroPad 2 t.second ++
    (if t.micro = 0 then [] else lit "." ++ zeroPad 6 t.micro) ++ lit "+00:00"

end Py
