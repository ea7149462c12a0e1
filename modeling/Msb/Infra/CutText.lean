import Msb.Infra.JsonRoundtrip
import Msb.Infra.Lines

/-!
# Texts that were cut off

What can still be read of a text of which only the beginning was written. A beginning of the bytes
that decodes is a beginning of the text. An object that has been read is read the same in front of
more text, so no proper beginning of an object's text is an object, and nothing but white space may
follow one.

* `prefix_of_encode` — a cut in the bytes that decodes is a cut in the text
* `value_append` — a value is read the same in front of more text
* `parse_append` — an object, and more text after it
-/

namespace Py

/-! ## Bytes -/

theorem scalar?_ofNat (x : Char) : scalar? (Fin.ofNat _ x.toNat) = some x := by
  have hlt : x.toNat < 0x110000 := by
    have := x.valid
    unfold Char.toNat
    simp only [UInt32.isValidChar, Nat.isValidChar] at this
    omega
  have hval : (Fin.ofNat 0x110000 x.toNat).val = x.toNat := Nat.mod_eq_of_lt hlt
  unfold scalar?
  rw [dif_pos (by rw [hval]; exact x.valid)]
  congr 1
  exact Char.ext (UInt32.toNat_inj.mp hval)

variable {s t r q : Str} {c : CodePoint} {j : Json} {n m : Nat} {kvs : List (Str × Json)}

/-- **Encoding gives back what was decoded.** -/
theorem encode_decode {b : Bytes} (h : decode b = some s) : encode s = some b := by
  obtain ⟨cs, hcs, rfl⟩ := Option.map_eq_some_iff.mp h
  have hb : cs.toList.utf8Encode = ⟨b.toArray⟩ := by
    have hget := ByteArray.utf8Encode_get_utf8Decode? (b := ⟨b.toArray⟩) (h := by rw [hcs]; rfl)
    simpa [hcs] using hget
  have hmap : (cs.toList.map fun c => (Fin.ofNat _ c.toNat : CodePoint)).mapM scalar? =
      some cs.toList := by
    induction cs.toList with
    | nil => rfl
    | cons c l ih =>
      rw [List.map_cons, List.mapM_cons, scalar?_ofNat, ih]
      rfl
  rw [encode, hmap, Option.map_some]
  have hbytes := congrArg (fun a : ByteArray => a.data.toList) hb
  simpa [List.utf8Encode] using hbytes

/-- What has a UTF-8 form. -/
theorem encode_isSome : (encode s).isSome = true ↔ ∀ c ∈ s, (scalar? c).isSome = true := by
  constructor
  · intro h
    unfold encode at h
    rw [Option.isSome_map] at h
    induction s with
    | nil =>
      intro c hc
      cases hc
    | cons d s ih =>
      rw [List.mapM_cons] at h
      cases hd : scalar? d with
      | none =>
        rw [hd] at h
        cases h
      | some x =>
        rw [hd] at h
        cases hs : s.mapM scalar? with
        | none =>
          rw [hs] at h
          cases h
        | some xs =>
          intro c hc
          rcases List.mem_cons.mp hc with rfl | hc
          · rw [hd]
            rfl
          · exact ih (by rw [hs]; rfl) c hc
  · intro h
    obtain ⟨b, hb⟩ := encode_of_scalar h
    rw [hb]
    rfl

/-- A byte below 128 stands for itself. -/
theorem mem_utf8EncodeChar {c : Char} {x : UInt8} (hx : x.toNat < 128)
    (h : x ∈ String.utf8EncodeChar c) : c.toNat = x.toNat := by
  have hlarge : ∀ n m : Nat, 128 ≤ m → n + m < 256 → x ≠ UInt8.ofNat (n + m) := by
    rintro n m hm hn rfl
    rw [UInt8.toNat_ofNat_of_lt' hn] at hx
    omega
  unfold String.utf8EncodeChar at h
  simp only at h
  split_ifs at h
  · rw [List.mem_singleton.mp h, UInt8.toNat_ofNat_of_lt' (by simp only [UInt8.size]; omega)]
    rfl
  all_goals simp only [List.mem_cons, List.not_mem_nil, or_false] at h
  · rcases h with h | h
    all_goals exact absurd h (hlarge _ _ (by omega) (by omega))
  · rcases h with h | h | h
    all_goals exact absurd h (hlarge _ _ (by omega) (by omega))
  · rcases h with h | h | h | h
    all_goals exact absurd h (hlarge _ _ (by omega) (by omega))

/-- **A byte below 128 is in the UTF-8 form of a text** only where its character is in the text. -/
theorem mem_of_mem_encode {b : Bytes} (h : encode s = some b) {x : UInt8} (hx : x.toNat < 128)
    (hmem : x ∈ b) :
    ∃ c ∈ s, c.val = x.toNat := by
  obtain ⟨cs, hcs, rfl⟩ := Option.map_eq_some_iff.mp h
  obtain ⟨d, hd, hxd⟩ := List.mem_flatMap.mp hmem
  have hval := mem_utf8EncodeChar hx hxd
  refine ⟨Fin.ofNat _ d.toNat, ?_, ?_⟩
  · rw [← mapM_scalar?_eq_some hcs]
    exact List.mem_map_of_mem hd
  · show d.toNat % 0x110000 = x.toNat
    omega

theorem encode_append_isSome :
    (encode (s ++ t)).isSome = true ↔ (encode s).isSome = true ∧ (encode t).isSome = true := by
  rw [encode_isSome, encode_isSome, encode_isSome]
  exact List.forall_mem_append

/-- **A cut in the bytes that decodes is a cut in the text.** -/
theorem prefix_of_encode {a b : Bytes} (ha : encode s = some a) (hb : encode t = some b)
    (h : a <+: b) : s <+: t := by
  obtain ⟨cs, hcs, rfl⟩ := Option.map_eq_some_iff.mp ha
  obtain ⟨ds, hds, rfl⟩ := Option.map_eq_some_iff.mp hb
  obtain ⟨more, hmore⟩ := h
  have hpre : cs <+: ds := by
    refine List.isPrefix_of_utf8Encode_append_eq_utf8Encode ⟨more.toArray⟩ ?_
    refine ByteArray.ext ?_
    simp [List.utf8Encode, ← hmore]
  rw [← mapM_scalar?_eq_some hcs, ← mapM_scalar?_eq_some hds]
  exact hpre.map _

/-! ## Numbers and constants -/

/-- What ends a value: white space, a comma or a closing bracket. -/
def isStop (c : CodePoint) : Bool := isWs c || c == 44 || c == 93 || c == 125

/-- The text goes on with such a character. -/
def Stops (r : Str) : Prop := ∃ c t, r = c :: t ∧ isStop c = true

theorem isStop_ne (h : isStop c = true) : c ≠ 46 ∧ c ≠ 101 ∧ c ≠ 69 := by
  refine ⟨?_, ?_, ?_⟩
  all_goals rintro rfl; revert h; decide

theorem takeDigits_more : ∀ {s r : Str} {ds : List Nat}, takeDigits s = (ds, r) → r ≠ [] →
    ∀ q, takeDigits (s ++ q) = (ds, r ++ q)
  | [], r, ds, h, hr, q => absurd (Prod.mk.inj h).2.symm hr
  | c :: s, r, ds, h, hr, q => by
    rw [takeDigits] at h
    rw [List.cons_append, takeDigits]
    cases hd : digit? c with
    | none =>
      simp only [hd] at h ⊢
      obtain ⟨rfl, rfl⟩ := Prod.mk.inj h
      rfl
    | some d =>
      simp only [hd] at h ⊢
      obtain ⟨rfl, rfl⟩ := Prod.mk.inj h
      rw [takeDigits_more (s := s) rfl hr q]

theorem scanIntPart_more {ds : List Nat} (h : scanIntPart s = some (ds, r)) (hr : r ≠ [])
    (q : Str) : scanIntPart (s ++ q) = some (ds, r ++ q) := by
  cases s with
  | nil => cases h
  | cons c s =>
    simp only [scanIntPart, List.cons_append] at h ⊢
    split at h
    · cases h
    · obtain ⟨rfl, rfl⟩ : [0] = ds ∧ s = r := by simpa using h
      simp_all
    · next d hd =>
      obtain ⟨rfl, rfl⟩ : (d + 1) :: (takeDigits s).1 = ds ∧ (takeDigits s).2 = r := by
        simpa using h
      simp only [takeDigits_more (s := s) rfl hr q]

theorem scanFrac_more {f : Option (List Nat)} (h : scanFrac s = (f, c :: t)) (hc : c ≠ 46)
    (q : Str) : scanFrac (s ++ q) = (f, c :: t ++ q) := by
  cases s with
  | nil => cases h
  | cons d s =>
    simp only [scanFrac, List.cons_append] at h ⊢
    by_cases hd : d = 46
    · rw [if_pos hd] at h ⊢
      cases htake : takeDigits s with
      | mk ds r =>
        rw [htake] at h
        cases ds with
        | nil =>
          obtain ⟨-, hdc, -⟩ : none = f ∧ d = c ∧ s = t := by simpa using h
          exact absurd (hdc.symm.trans hd) hc
        | cons e ds =>
          obtain ⟨rfl, rfl⟩ : some (e :: ds) = f ∧ r = c :: t := by simpa using h
          rw [takeDigits_more htake (by simp) q]
          rfl
    · rw [if_neg hd] at h ⊢
      obtain ⟨rfl, rfl, rfl⟩ : none = f ∧ d = c ∧ s = t := by simpa using h
      rfl

theorem scanSign_more (hs : s ≠ []) (q : Str) :
    scanSign (s ++ q) = ((scanSign s).1, (scanSign s).2 ++ q) := by
  cases s with
  | nil => exact absurd rfl hs
  | cons c s =>
    simp only [scanSign, List.cons_append]
    split_ifs <;> rfl

theorem scanExp_more {e : Option (Bool × List Nat)} (h : scanExp s = (e, c :: t))
    (hc : c ≠ 101 ∧ c ≠ 69) (q : Str) : scanExp (s ++ q) = (e, c :: t ++ q) := by
  cases s with
  | nil => cases h
  | cons d s =>
    simp only [scanExp, List.cons_append] at h ⊢
    by_cases hd : d = 101 ∨ d = 69
    · rw [if_pos hd] at h ⊢
      cases htake : takeDigits (scanSign s).2 with
      | mk ds r =>
        rw [htake] at h
        cases ds with
        | nil =>
          obtain ⟨-, rfl, -⟩ : none = e ∧ d = c ∧ s = t := by simpa using h
          exact absurd hd (not_or.mpr hc)
        | cons x ds =>
          obtain ⟨rfl, rfl⟩ : some ((scanSign s).1, x :: ds) = e ∧ r = c :: t := by simpa using h
          have hs : s ≠ [] := by
            rintro rfl
            cases htake
          rw [scanSign_more hs]
          simp only [takeDigits_more htake (by simp) q, List.cons_append]
    · rw [if_neg hd] at h ⊢
      obtain ⟨rfl, rfl, rfl⟩ : none = e ∧ d = c ∧ s = t := by simpa using h
      rfl

theorem scanUnsigned_more {neg : Bool} {l : NumLit} (h : scanUnsigned neg s = some (l, r))
    (hr : Stops r) (q : Str) :
    scanUnsigned neg (s ++ q) = some (l, r ++ q) := by
  obtain ⟨c, t, rfl, hstop⟩ := hr
  obtain ⟨⟨ds, r₀⟩, hint, heq⟩ := Option.map_eq_some_iff.mp h
  obtain ⟨rfl, hexp⟩ := Prod.mk.inj heq
  have hexp' : scanExp (scanFrac r₀).2 = ((scanExp (scanFrac r₀).2).1, c :: t) := Prod.ext rfl hexp
  -- what is left of the fraction starts with no point, as a point would be left at the end too
  obtain ⟨d, u, hrest, hd⟩ : ∃ d u, (scanFrac r₀).2 = d :: u ∧ d ≠ 46 := by
    cases hrest : (scanFrac r₀).2 with
    | nil =>
      rw [hrest] at hexp
      cases hexp
    | cons d u =>
      refine ⟨d, u, rfl, ?_⟩
      rintro rfl
      rw [hrest] at hexp
      exact (isStop_ne hstop).1 (List.cons.inj hexp).1.symm
  have hfrac : scanFrac r₀ = ((scanFrac r₀).1, d :: u) := Prod.ext rfl hrest
  have hr₀ : r₀ ≠ [] := by
    rintro rfl
    cases hrest
  rw [scanUnsigned, scanIntPart_more hint hr₀ q, Option.map_some]
  simp only [scanFrac_more hfrac hd q]
  rw [← hrest, scanExp_more hexp' (isStop_ne hstop).2 q]

theorem scanNumber_more {l : NumLit} (h : scanNumber s = some (l, r)) (hr : Stops r) (q : Str) :
    scanNumber (s ++ q) = some (l, r ++ q) := by
  cases s with
  | nil => cases h
  | cons c s =>
    simp only [scanNumber, List.cons_append] at h ⊢
    split_ifs at h ⊢ with hneg
    · exact scanUnsigned_more h hr q
    · exact scanUnsigned_more h hr q

theorem after_more : ∀ {w s r : Str}, after w s = some r → ∀ q, after w (s ++ q) = some (r ++ q)
  | [], s, r, h, q => by
    obtain rfl := Option.some.inj h
    rfl
  | _ :: _, [], r, h, q => by cases h
  | x :: w, c :: s, r, h, q => by
    rw [List.cons_append, after]
    rw [after] at h
    split_ifs at h ⊢
    exact after_more h q

/-- A word that is not there does not come with more text, unless its beginning was all there was.
-/
theorem after_none : ∀ {w s : Str}, after w s = none → ∀ q, after w (s ++ q) = none ∨
    ∃ k < w.length, s = w.take k
  | [], s, h, q => by cases h
  | x :: w, [], h, q => .inr ⟨0, by simp, rfl⟩
  | x :: w, c :: s, h, q => by
    rw [List.cons_append, after]
    rw [after] at h
    by_cases hx : x = c
    · rw [if_pos hx] at h ⊢
      rcases after_none h q with hnone | ⟨k, hk, hs⟩
      · exact .inl hnone
      · exact .inr ⟨k + 1, by simpa using hk, by rw [List.take_succ_cons, hx, hs]⟩
    · exact .inl (if_neg hx)

/-- The words that stand for values. -/
def valueWords : List Str :=
  [lit "null", lit "true", lit "false", lit "NaN", lit "Infinity", lit "-Infinity"]

theorem scanAtom_cut : ∀ w ∈ valueWords, ∀ k < w.length, scanAtom (w.take k) = none := by decide

theorem scanAtom_more (h : scanAtom s = some (j, r)) (hr : Stops r) (q : Str) :
    scanAtom (s ++ q) = some (j, r ++ q) := by
  have hstay : ∀ w ∈ valueWords, after w s = none → after w (s ++ q) = none := by
    intro w hw hnone
    rcases after_none hnone q with hnone' | ⟨k, hk, rfl⟩
    · exact hnone'
    · rw [scanAtom_cut w hw k hk] at h
      cases h
  simp only [valueWords, List.forall_mem_cons] at hstay
  obtain ⟨hnull, htrue, hfalse, hnan, hinf, hneg, -⟩ := hstay
  unfold scanAtom at h ⊢
  cases h₁ : after (lit "null") s with
  | some r' =>
    obtain ⟨rfl, rfl⟩ : Json.null = j ∧ r' = r := by simpa [h₁] using h
    rw [after_more h₁]
  | none =>
  cases h₂ : after (lit "true") s with
  | some r' =>
    obtain ⟨rfl, rfl⟩ : Json.bool true = j ∧ r' = r := by simpa [h₁, h₂] using h
    rw [hnull h₁, after_more h₂]
  | none =>
  cases h₃ : after (lit "false") s with
  | some r' =>
    obtain ⟨rfl, rfl⟩ : Json.bool false = j ∧ r' = r := by simpa [h₁, h₂, h₃] using h
    rw [hnull h₁, htrue h₂, after_more h₃]
  | none =>
  cases h₄ : after (lit "NaN") s with
  | some r' =>
    obtain ⟨rfl, rfl⟩ : Json.float .nan = j ∧ r' = r := by simpa [h₁, h₂, h₃, h₄] using h
    rw [hnull h₁, htrue h₂, hfalse h₃, after_more h₄]
  | none =>
  cases h₅ : after (lit "Infinity") s with
  | some r' =>
    obtain ⟨rfl, rfl⟩ : Json.float (.inf false) = j ∧ r' = r := by
      simpa [h₁, h₂, h₃, h₄, h₅] using h
    rw [hnull h₁, htrue h₂, hfalse h₃, hnan h₄, after_more h₅]
  | none =>
  cases h₆ : after (lit "-Infinity") s with
  | some r' =>
    obtain ⟨rfl, rfl⟩ : Json.float (.inf true) = j ∧ r' = r := by
      simpa [h₁, h₂, h₃, h₄, h₅, h₆] using h
    rw [hnull h₁, htrue h₂, hfalse h₃, hnan h₄, hinf h₅, after_more h₆]
  | none =>
    simp only [h₁, h₂, h₃, h₄, h₅, h₆] at h
    obtain ⟨⟨l, r'⟩, hnum, heq⟩ := Option.map_eq_some_iff.mp h
    obtain ⟨rfl, rfl⟩ := Prod.mk.inj heq
    rw [hnull h₁, htrue h₂, hfalse h₃, hnan h₄, hinf h₅, hneg h₆]
    simp [scanNumber_more hnum hr q]

/-! ## Strings -/

/-- Of an escape that is cut off, no string is read. -/
theorem scanString_short {rest : Str} (h : rest.length < 4) :
    scanString (92 :: 117 :: rest) = none := by
  rw [scanString, if_neg (by decide), if_pos rfl]
  · rfl
  · rintro x₁ x₂ x₃ x₄ rest' rfl
    simp only [List.length_cons] at h
    omega

theorem map_more {o o' : Option (Str × Str)} {f : Str → Str}
    (h : o.map (fun p => (f p.1, p.2)) = some (t, r))
    (hmore : ∀ {t r : Str}, o = some (t, r) → o' = some (t, r ++ q)) :
    o'.map (fun p => (f p.1, p.2)) = some (t, r ++ q) := by
  obtain ⟨⟨t', r'⟩, ho, heq⟩ := Option.map_eq_some_iff.mp h
  obtain ⟨rfl, rfl⟩ := Prod.mk.inj heq
  rw [hmore ho, Option.map_some]

/-- A string is read up to its quote. -/
theorem scanString_more (h : scanString s = some (t, r)) (q : Str) :
    scanString (s ++ q) = some (t, r ++ q) := by
  fun_induction scanString s generalizing t r with
  | case1 => cases h
  | case2 rest =>
    obtain ⟨rfl, rfl⟩ : [] = t ∧ rest = r := by simpa using h
    rw [List.cons_append, scanString_quote]
  | case3 => cases h
  | case4 => cases h
  | case5 => cases h
  | case6 x₁ x₂ x₃ x₄ m hm hhigh b u y₁ y₂ y₃ y₄ rest hbu n hn hlow _ _ ih =>
    simp only [List.cons_append]
    rw [scanString, if_neg (by decide), if_pos rfl]
    simp only [if_true, hm, if_pos hhigh, if_pos hbu, hn, if_pos hlow]
    exact map_more h ih
  | case7 x₁ x₂ x₃ x₄ m hm hhigh b u y₁ y₂ y₃ y₄ rest hbu n hn hlow =>
    rename_i ih
    simp only [List.cons_append] at ih ⊢
    rw [scanString, if_neg (by decide), if_pos rfl]
    simp only [if_true, hm, if_pos hhigh, if_pos hbu, hn, if_neg hlow]
    exact map_more h ih
  | case8 x₁ x₂ x₃ x₄ m hm hhigh b u y₁ y₂ y₃ y₄ rest hbu =>
    rename_i ih
    simp only [List.cons_append] at ih ⊢
    rw [scanString, if_neg (by decide), if_pos rfl]
    simp only [if_true, hm, if_pos hhigh, if_neg hbu]
    exact map_more h ih
  | case9 x₁ x₂ x₃ x₄ rest m hm lone hhigh hshort =>
    rename_i ih
    simp only [List.cons_append]
    rw [scanString, if_neg (by decide), if_pos rfl]
    simp only [if_true, hm, if_pos hhigh]
    split
    · next b u y₁ y₂ y₃ y₄ rest' heq =>
      -- the rest is too short for an escape, and it holds the quote
      have hplain : ¬(b = 92 ∧ u = 117) := by
        rintro ⟨rfl, rfl⟩
        obtain ⟨⟨t', r'⟩, hrest, -⟩ := Option.map_eq_some_iff.mp h
        rcases rest with _ | ⟨c, _ | ⟨d, rest⟩⟩
        · cases hrest
        · obtain rfl := (List.cons.inj heq).1
          cases hrest
        · simp only [List.cons_append, List.cons.injEq] at heq
          obtain ⟨rfl, rfl, -⟩ := heq
          have hlen : rest.length < 4 := by
            rcases rest with _ | ⟨z₁, _ | ⟨z₂, _ | ⟨z₃, _ | ⟨z₄, rest⟩⟩⟩⟩
            case cons.cons.cons.cons => exact absurd rfl (hshort _ _ _ _ _ _ _)
            all_goals simp
          rw [scanString_short hlen] at hrest
          cases hrest
      rw [if_neg hplain]
      exact map_more h ih
    · exact map_more h ih
  | case10 x₁ x₂ x₃ x₄ rest m hm lone hhigh =>
    rename_i ih
    simp only [List.cons_append]
    rw [scanString, if_neg (by decide), if_pos rfl]
    simp only [if_true, hm, if_neg hhigh]
    exact map_more h ih
  | case11 => cases h
  | case12 => cases h
  | case13 e rest he x hx _ ih =>
    simp only [List.cons_append]
    rw [scanString_simple he hx]
    exact map_more h ih
  | case14 => cases h
  | case15 c rest h34 h92 h32 ih =>
    rw [List.cons_append, scanString_plain h34 h92 h32]
    exact map_more h ih

/-! ## Values -/

theorem skipWs_more (h : skipWs s = c :: t) (q : Str) : skipWs (s ++ q) = c :: (t ++ q) := by
  induction s with
  | nil => cases h
  | cons d s ih =>
    rw [List.cons_append, skipWs]
    rw [skipWs] at h
    split_ifs at h ⊢
    · exact ih h
    · obtain ⟨rfl, rfl⟩ := List.cons.inj h
      rfl

/-- Only white space is skipped to the end. -/
theorem forall_isWs_of_skipWs (h : skipWs s = []) : ∀ c ∈ s, isWs c = true := by
  induction s with
  | nil => simp
  | cons d s ih =>
    rw [skipWs] at h
    split_ifs at h with hd
    exact List.forall_mem_cons.mpr ⟨hd, ih h⟩

theorem skipWs_of_nil (h : skipWs s = []) (q : Str) : skipWs (s ++ q) = skipWs q :=
  skipWs_append (forall_isWs_of_skipWs h) q

/-- White space, or what follows it, ends a value where it is a comma or a bracket. -/
theorem stops_of_skipWs (h : skipWs s = c :: t) (hc : isStop c = true) : Stops s := by
  cases s with
  | nil => cases h
  | cons d s =>
    rw [skipWs] at h
    split_ifs at h with hd
    · exact ⟨d, s, rfl, by simp [isStop, hd]⟩
    · obtain ⟨rfl, rfl⟩ := List.cons.inj h
      exact ⟨d, s, rfl, hc⟩

theorem stops_of_elems {p : List Json × Str} (h : elems n s = some p) : Stops s := by
  cases n with
  | zero => cases h
  | succ n =>
    rw [elems] at h
    cases hws : skipWs s with
    | nil => simp [hws] at h
    | cons c rest =>
      by_cases h93 : c = 93
      · exact stops_of_skipWs hws (by simp [isStop, h93])
      by_cases h44 : c = 44
      · exact stops_of_skipWs hws (by simp [isStop, h44])
      simp [hws, h93, h44] at h

theorem stops_of_members {p : List (Str × Json) × Str} (h : members n s = some p) : Stops s := by
  cases n with
  | zero => cases h
  | succ n =>
    rw [members] at h
    cases hws : skipWs s with
    | nil => simp [hws] at h
    | cons c rest =>
      by_cases h125 : c = 125
      · exact stops_of_skipWs hws (by simp [isStop, h125])
      by_cases h44 : c = 44
      · exact stops_of_skipWs hws (by simp [isStop, h44])
      simp [hws, h125, h44] at h

/-- A string, an array or an object is closed by its own last character. -/
def Closes (s : Str) : Prop := ∃ c t, s = c :: t ∧ (c = 34 ∨ c = 91 ∨ c = 123)

/-- What is read with `n` steps at most is read the same in front of more text. -/
structure ReadsOn (n : Nat) : Prop where
  value : ∀ {s j r}, value n s = some (j, r) → Stops r ∨ Closes s → ∀ m ≥ n, ∀ q,
    value m (s ++ q) = some (j, r ++ q)
  elems : ∀ {s xs r}, elems n s = some (xs, r) → ∀ m ≥ n, ∀ q, elems m (s ++ q) = some (xs, r ++ q)
  member : ∀ {s p r}, member n s = some (p, r) → Stops r → ∀ m ≥ n, ∀ q,
    member m (s ++ q) = some (p, r ++ q)
  members : ∀ {s ps r}, members n s = some (ps, r) → ∀ m ≥ n, ∀ q,
    members m (s ++ q) = some (ps, r ++ q)

theorem value_nil (n : Nat) : value n [] = none := by cases n <;> rfl

theorem member_nil (n : Nat) : member n [] = none := by cases n <;> rfl

theorem ReadsOn.value_succ (ih : ReadsOn n) (h : Py.value (n + 1) s = some (j, r))
    (hs : Stops r ∨ Closes s) (hm : m ≥ n) (q : Str) :
    Py.value (m + 1) (s ++ q) = some (j, r ++ q) := by
  cases s with
  | nil => cases h
  | cons c rest =>
    rw [Py.value] at h
    rw [List.cons_append, Py.value]
    by_cases h34 : c = 34
    · rw [if_pos h34] at h ⊢
      obtain ⟨⟨t, r'⟩, hscan, heq⟩ := Option.map_eq_some_iff.mp h
      obtain ⟨rfl, rfl⟩ := Prod.mk.inj heq
      rw [scanString_more hscan q, Option.map_some]
    rw [if_neg h34] at h ⊢
    by_cases h91 : c = 91
    · rw [if_pos h91] at h ⊢
      cases hws : skipWs rest with
      | nil => simp [hws] at h
      | cons d rest' =>
        simp only [hws, skipWs_more hws q] at h ⊢
        by_cases h93 : d = 93
        · rw [if_pos h93] at h ⊢
          obtain ⟨rfl, rfl⟩ : Json.arr [] = j ∧ rest' = r := by simpa using h
          rfl
        rw [if_neg h93] at h ⊢
        cases hval : Py.value n (d :: rest') with
        | none => simp [hval] at h
        | some p =>
          obtain ⟨x, r'⟩ := p
          simp only [hval] at h
          obtain ⟨⟨xs, r''⟩, helems, heq⟩ := Option.map_eq_some_iff.mp h
          obtain ⟨rfl, rfl⟩ := Prod.mk.inj heq
          have hval' := ih.value hval (.inl (stops_of_elems helems)) m hm q
          rw [List.cons_append] at hval'
          simp only [hval', ih.elems helems m hm q, Option.map_some]
    rw [if_neg h91] at h ⊢
    by_cases h123 : c = 123
    · rw [if_pos h123] at h ⊢
      cases hws : skipWs rest with
      | nil => simp [hws] at h
      | cons d rest' =>
        simp only [hws, skipWs_more hws q] at h ⊢
        by_cases h125 : d = 125
        · rw [if_pos h125] at h ⊢
          obtain ⟨rfl, rfl⟩ : Json.obj [] = j ∧ rest' = r := by simpa using h
          rfl
        rw [if_neg h125] at h ⊢
        cases hmem : Py.member n (d :: rest') with
        | none => simp [hmem] at h
        | some p =>
          obtain ⟨x, r'⟩ := p
          simp only [hmem] at h
          obtain ⟨⟨xs, r''⟩, hmembers, heq⟩ := Option.map_eq_some_iff.mp h
          obtain ⟨rfl, rfl⟩ := Prod.mk.inj heq
          have hmem' := ih.member hmem (stops_of_members hmembers) m hm q
          rw [List.cons_append] at hmem'
          simp only [hmem', ih.members hmembers m hm q, Option.map_some]
    rw [if_neg h123] at h ⊢
    -- a constant or a number: it is closed by what follows
    rcases hs with hstop | ⟨d, t, heq, hd⟩
    · rw [← List.cons_append, scanAtom_more h hstop q]
    · obtain ⟨rfl, -⟩ := List.cons.inj heq
      rcases hd with hd | hd | hd
      exacts [absurd hd h34, absurd hd h91, absurd hd h123]

theorem ReadsOn.elems_succ (ih : ReadsOn n) {xs : List Json} (h : Py.elems (n + 1) s = some (xs, r))
    (hm : m ≥ n) (q : Str) : Py.elems (m + 1) (s ++ q) = some (xs, r ++ q) := by
  rw [Py.elems] at h ⊢
  cases hws : skipWs s with
  | nil => simp [hws] at h
  | cons c rest =>
    simp only [hws, skipWs_more hws q] at h ⊢
    by_cases h93 : c = 93
    · rw [if_pos h93] at h ⊢
      obtain ⟨rfl, rfl⟩ : [] = xs ∧ rest = r := by simpa using h
      rfl
    rw [if_neg h93] at h ⊢
    by_cases h44 : c = 44
    · rw [if_pos h44] at h ⊢
      cases hrest : skipWs rest with
      | nil => simp [hrest, value_nil] at h
      | cons d rest' =>
        simp only [hrest, skipWs_more hrest q] at h ⊢
        cases hval : Py.value n (d :: rest') with
        | none => simp [hval] at h
        | some p =>
          obtain ⟨x, r'⟩ := p
          simp only [hval] at h
          obtain ⟨⟨ys, r''⟩, helems, heq⟩ := Option.map_eq_some_iff.mp h
          obtain ⟨rfl, rfl⟩ := Prod.mk.inj heq
          have hval' := ih.value hval (.inl (stops_of_elems helems)) m hm q
          rw [List.cons_append] at hval'
          simp only [hval', ih.elems helems m hm q, Option.map_some]
    · rw [if_neg h44] at h
      cases h

theorem ReadsOn.member_succ (ih : ReadsOn n) {p : Str × Json}
    (h : Py.member (n + 1) s = some (p, r)) (hs : Stops r) (hm : m ≥ n) (q : Str) :
    Py.member (m + 1) (s ++ q) = some (p, r ++ q) := by
  cases s with
  | nil => cases h
  | cons c rest =>
    rw [Py.member] at h
    rw [List.cons_append, Py.member]
    by_cases h34 : c = 34
    · rw [if_pos h34] at h ⊢
      cases hscan : scanString rest with
      | none => simp [hscan] at h
      | some kr =>
        obtain ⟨k, r'⟩ := kr
        simp only [hscan, scanString_more hscan q] at h ⊢
        cases hws : skipWs r' with
        | nil => simp [hws] at h
        | cons d rest' =>
          simp only [hws, skipWs_more hws q] at h ⊢
          by_cases h58 : d = 58
          · rw [if_pos h58] at h ⊢
            obtain ⟨⟨v, r''⟩, hval, heq⟩ := Option.map_eq_some_iff.mp h
            obtain ⟨rfl, rfl⟩ := Prod.mk.inj heq
            cases hrest : skipWs rest' with
            | nil => simp [hrest, value_nil] at hval
            | cons e rest'' =>
              rw [hrest] at hval
              rw [skipWs_more hrest q, ← List.cons_append, ih.value hval (.inl hs) m hm q,
                Option.map_some]
          · rw [if_neg h58] at h
            cases h
    · rw [if_neg h34] at h
      cases h

theorem ReadsOn.members_succ (ih : ReadsOn n) {ps : List (Str × Json)}
    (h : Py.members (n + 1) s = some (ps, r)) (hm : m ≥ n) (q : Str) :
    Py.members (m + 1) (s ++ q) = some (ps, r ++ q) := by
  rw [Py.members] at h ⊢
  cases hws : skipWs s with
  | nil => simp [hws] at h
  | cons c rest =>
    simp only [hws, skipWs_more hws q] at h ⊢
    by_cases h125 : c = 125
    · rw [if_pos h125] at h ⊢
      obtain ⟨rfl, rfl⟩ : [] = ps ∧ rest = r := by simpa using h
      rfl
    rw [if_neg h125] at h ⊢
    by_cases h44 : c = 44
    · rw [if_pos h44] at h ⊢
      cases hrest : skipWs rest with
      | nil => simp [hrest, member_nil] at h
      | cons d rest' =>
        simp only [hrest, skipWs_more hrest q] at h ⊢
        cases hmem : Py.member n (d :: rest') with
        | none => simp [hmem] at h
        | some p =>
          obtain ⟨x, r'⟩ := p
          simp only [hmem] at h
          obtain ⟨⟨ys, r''⟩, hmembers, heq⟩ := Option.map_eq_some_iff.mp h
          obtain ⟨rfl, rfl⟩ := Prod.mk.inj heq
          have hmem' := ih.member hmem (stops_of_members hmembers) m hm q
          rw [List.cons_append] at hmem'
          simp only [hmem', ih.members hmembers m hm q, Option.map_some]
    · rw [if_neg h44] at h
      cases h

theorem readsOn : ∀ n, ReadsOn n
  | 0 => by
    refine ⟨fun h => ?_, fun h => ?_, fun h => ?_, fun h => ?_⟩
    all_goals cases h
  | n + 1 => by
    have ih := readsOn n
    refine ⟨fun h hs m hm q => ?_, fun h m hm q => ?_, fun h hs m hm q => ?_, fun h m hm q => ?_⟩
    all_goals obtain ⟨m, rfl⟩ : ∃ k, m = k + 1 := ⟨m - 1, by omega⟩
    · exact ih.value_succ h hs (by omega) q
    · exact ih.elems_succ h (by omega) q
    · exact ih.member_succ h hs (by omega) q
    · exact ih.members_succ h (by omega) q

/-- **A value is read the same in front of more text**, where it is closed. -/
theorem value_append (h : value n s = some (j, r)) (hs : Stops r ∨ Closes s) (hm : m ≥ n)
    (q : Str) : value m (s ++ q) = some (j, r ++ q) := (readsOn n).value h hs m hm q

/-! ## Objects -/

theorem scanAtom_ne_obj : scanAtom s ≠ some (.obj kvs, r) := by
  unfold scanAtom
  intro h
  repeat' split at h
  all_goals first | cases h | skip
  obtain ⟨⟨l, r'⟩, -, heq⟩ := Option.map_eq_some_iff.mp h
  have hnum := (Prod.mk.inj heq).1
  simp only [numJson] at hnum
  split at hnum <;> cases hnum

/-- An object starts with a brace. -/
theorem closes_of_obj (h : value n s = some (.obj kvs, r)) : Closes s := by
  cases n with
  | zero => cases h
  | succ n =>
    cases s with
    | nil => cases h
    | cons c rest =>
      rw [value] at h
      by_cases h34 : c = 34
      · exact ⟨c, rest, rfl, .inl h34⟩
      by_cases h91 : c = 91
      · exact ⟨c, rest, rfl, .inr (.inl h91)⟩
      by_cases h123 : c = 123
      · exact ⟨c, rest, rfl, .inr (.inr h123)⟩
      rw [if_neg h34, if_neg h91, if_neg h123] at h
      exact absurd h scanAtom_ne_obj

/-- **A string, an array or an object, and more text after it**: only white space may follow. -/
theorem parse_append_closed (h : parse s = some j) (hs : Closes (skipWs s)) :
    parse (s ++ q) = if skipWs q = [] then some j else none := by
  unfold parse at h ⊢
  split_ifs at h with hbom
  cases hval : value s.length (skipWs s) with
  | none => simp [hval] at h
  | some p =>
    obtain ⟨j', r⟩ := p
    simp only [hval] at h
    split_ifs at h with hr
    obtain rfl := Option.some.inj h
    obtain ⟨c, t, hws, hc⟩ := hs
    have hhead : (s ++ q).head? = s.head? := by
      cases s with
      | nil => cases hws
      | cons d s => rfl
    rw [hws] at hval
    have hmore : value (s ++ q).length (c :: t ++ q) = some (j', r ++ q) :=
      value_append hval (.inr ⟨c, t, rfl, hc⟩) (by simp) q
    rw [hhead, if_neg hbom, skipWs_more hws q, ← List.cons_append, hmore]
    simp only [skipWs_of_nil hr q]

theorem parse_append (h : parse s = some (.obj kvs)) :
    parse (s ++ q) = if skipWs q = [] then some (.obj kvs) else none := by
  refine parse_append_closed h ?_
  unfold parse at h
  split_ifs at h
  cases hval : value s.length (skipWs s) with
  | none => simp [hval] at h
  | some p =>
    obtain ⟨j, r⟩ := p
    simp only [hval] at h
    split_ifs at h
    obtain rfl := Option.some.inj h
    exact closes_of_obj hval

end Py
