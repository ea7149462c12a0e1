import Msb.Infra.Json

/-!
# The round trip of JSON text

Writing and reading back. The reader is driven by fuel, so every lemma says how much is needed: the
length of what was written. Under `ensure_ascii` two lone surrogates that stand next to each other
are written as one pair, and read as the code point of the pair: a tree without such strings
(`Json.Unpaired`) reads back as itself.

The one thing that has to be known of what follows a value is that a number does not go on in it
(`NumEnd`); the separators and the closing brackets satisfy that.
-/

namespace Py

/-! ## White space -/

theorem skipWs_of_head {c : CodePoint} (h : isWs c = false) (s : Str) :
    skipWs (c :: s) = c :: s := by
  rw [skipWs, if_neg (by simp [h])]

theorem skipWs_append : ∀ {pad : Str}, (∀ c ∈ pad, isWs c = true) → ∀ s : Str,
    skipWs (pad ++ s) = skipWs s
  | [], _, _ => rfl
  | c :: pad, h, s => by
    rw [List.cons_append, skipWs, if_pos (h c List.mem_cons_self),
      skipWs_append (fun x hx => h x (List.mem_cons_of_mem _ hx)) s]

/-! ## Atoms -/

theorem after_of_ne {w c : CodePoint} (h : w ≠ c) (ws s : Str) :
    after (w :: ws) (c :: s) = none := by
  rw [after, if_neg h]

theorem after_append : ∀ (w s : Str), after w (w ++ s) = some s
  | [], _ => rfl
  | c :: w, s => by rw [List.cons_append, after, if_pos rfl, after_append w s]

theorem digitChar_val {d : Nat} (h : d < 10) : (digitChar d).val = 48 + d := by
  have hall : ∀ e ∈ List.range 10, (digitChar e).val = 48 + e := by decide
  exact hall d (List.mem_range.mpr h)

theorem ne_digitChar {d : Nat} {w : CodePoint} (h : d < 10) (hw : w.val < 48 ∨ 57 < w.val) :
    w ≠ digitChar d := by
  have hv := digitChar_val h
  rintro rfl
  omega

/-- A literal starts with its sign, or with a digit. -/
theorem NumLit.text_head {l : NumLit} (hl : l.WellFormed) :
    ∃ d t, d < 10 ∧ l.text = (if l.neg then [45] else []) ++ digitChar d :: t := by
  have hcons : ∃ d ds, l.int = d :: ds := by
    rcases hl.int_head with h0 | ⟨hne, _⟩
    · exact ⟨0, [], h0⟩
    · exact List.exists_cons_of_ne_nil hne
  obtain ⟨d, ds, hi⟩ := hcons
  refine ⟨d, ds.map digitChar ++ (fracText l.frac ++ expText l.exp),
    hl.int_lt d (by rw [hi]; exact List.mem_cons_self), ?_⟩
  rw [NumLit.text, hi, List.map_cons, List.cons_append]

/-- A literal starts with no letter, bracket, quote or white space. -/
theorem NumLit.text_cons {l : NumLit} (hl : l.WellFormed) :
    ∃ c t, l.text = c :: t ∧ 45 ≤ c.val ∧ c.val ≤ 57 := by
  obtain ⟨d, t, hd, ht⟩ := NumLit.text_head hl
  have hv := digitChar_val hd
  cases hneg : l.neg with
  | true => exact ⟨45, digitChar d :: t, by simpa [hneg] using ht, by decide, by decide⟩
  | false => exact ⟨digitChar d, t, by simpa [hneg] using ht, by omega, by omega⟩

theorem scanAtom_number {l : NumLit} (hl : l.WellFormed) {rest : Str} (h : NumEnd rest) :
    scanAtom (l.text ++ rest) = some (numJson l, rest) := by
  have hscan := scanNumber_text hl h
  have hinf : after (lit "-Infinity") (l.text ++ rest) = none := by
    obtain ⟨d, t, hd, ht⟩ := NumLit.text_head hl
    rw [ht, show lit "-Infinity" = 45 :: 73 :: lit "nfinity" by decide]
    cases l.neg with
    | true =>
      simp only [if_true, List.cons_append, List.nil_append]
      rw [after, if_pos rfl]
      exact after_of_ne (ne_digitChar hd (by decide)) _ _
    | false => exact after_of_ne (ne_digitChar hd (by decide)) _ _
  obtain ⟨c, t, ht, hlo, hhi⟩ := NumLit.text_cons hl
  rw [ht, List.cons_append] at hscan hinf ⊢
  have hne : ∀ w : CodePoint, 57 < w.val → w ≠ c := by rintro w hw rfl; omega
  simp only [scanAtom, show lit "null" = 110 :: lit "ull" by decide,
    show lit "true" = 116 :: lit "rue" by decide, show lit "false" = 102 :: lit "alse" by decide,
    show lit "NaN" = 78 :: lit "aN" by decide, show lit "Infinity" = 73 :: lit "nfinity" by decide,
    after_of_ne (hne 110 (by decide)), after_of_ne (hne 116 (by decide)),
    after_of_ne (hne 102 (by decide)), after_of_ne (hne 78 (by decide)),
    after_of_ne (hne 73 (by decide)), hinf, hscan, Option.map_some]

/-- The trees written without a bracket or a quote. -/
def Json.isAtom : Json → Bool
  | .null | .bool _ | .int _ | .float _ => true
  | _ => false

theorem scanAtom_render (st : JsonStyle) {j : Json} (hj : j.isAtom = true) {rest : Str}
    (h : NumEnd rest) : scanAtom (render st j ++ rest) = some (j, rest) := by
  cases j with
  | null => rw [render, scanAtom, after_append]
  | bool b => cases b <;> rfl
  | int i =>
    rw [render, scanAtom_number (intLit_wellFormed i) h, numJson,
      if_neg (by simp [intLit, NumLit.isFloat]), readInt_intLit]
  | float f =>
    cases f with
    | finite x =>
      rw [render, floatText, scanAtom_number (reprLit_wellFormed x) h, numJson,
        if_pos (reprLit_isFloat x), readFloat_reprLit]
    | inf neg => cases neg <;> rfl
    | nan => rfl
  | str s => cases hj
  | arr xs => cases hj
  | obj kvs => cases hj

/-! ## The first character -/

/-- What no value starts with. -/
def ValueHead (c : CodePoint) : Prop :=
  isWs c = false ∧ c ≠ 93 ∧ c ≠ 0xFEFF

/-- An atom starts with a character that opens neither a string nor a container. -/
theorem render_atom_cons (st : JsonStyle) {j : Json} (hj : j.isAtom = true) :
    ∃ c t, render st j = c :: t ∧ ValueHead c ∧ c ≠ 34 ∧ c ≠ 91 ∧ c ≠ 123 := by
  have hnum : ∀ {l : NumLit}, l.WellFormed →
      ∃ c t, l.text = c :: t ∧ ValueHead c ∧ c ≠ 34 ∧ c ≠ 91 ∧ c ≠ 123 := by
    intro l hl
    obtain ⟨c, t, ht, hlo, hhi⟩ := NumLit.text_cons hl
    have hne : ∀ w : CodePoint, w.val < 45 ∨ 57 < w.val → c ≠ w := by
      rintro w hw rfl; omega
    refine ⟨c, t, ht, ⟨?_, hne _ (by decide), hne _ (by decide)⟩, hne _ (by decide),
      hne _ (by decide), hne _ (by decide)⟩
    simp [isWs, hne 32 (by decide), hne 9 (by decide), hne 10 (by decide), hne 13 (by decide)]
  cases j with
  | null => exact ⟨110, lit "ull", rfl, by unfold ValueHead; decide⟩
  | bool b =>
    cases b
    · exact ⟨102, lit "alse", rfl, by unfold ValueHead; decide⟩
    · exact ⟨116, lit "rue", rfl, by unfold ValueHead; decide⟩
  | int i => exact hnum (intLit_wellFormed i)
  | float f =>
    cases f with
    | finite x => exact hnum (reprLit_wellFormed x)
    | inf neg =>
      cases neg
      · exact ⟨73, lit "nfinity", rfl, by unfold ValueHead; decide⟩
      · exact ⟨45, lit "Infinity", rfl, by unfold ValueHead; decide⟩
    | nan => exact ⟨78, lit "aN", rfl, by unfold ValueHead; decide⟩
  | str s => cases hj
  | arr xs => cases hj
  | obj kvs => cases hj

theorem render_cons (st : JsonStyle) (j : Json) : ∃ c t, render st j = c :: t ∧ ValueHead c := by
  by_cases hj : j.isAtom = true
  · obtain ⟨c, t, ht, hc, _⟩ := render_atom_cons st hj
    exact ⟨c, t, ht, hc⟩
  · cases j with
    | str s => exact ⟨34, _, rfl, by unfold ValueHead; decide⟩
    | arr xs =>
      cases xs with
      | nil => exact ⟨91, _, rfl, by unfold ValueHead; decide⟩
      | cons x xs => exact ⟨91, _, rfl, by unfold ValueHead; decide⟩
    | obj kvs =>
      cases kvs with
      | nil => exact ⟨123, _, rfl, by unfold ValueHead; decide⟩
      | cons p kvs => exact ⟨123, _, rfl, by unfold ValueHead; decide⟩
    | _ => exact absurd rfl hj

theorem skipWs_render (st : JsonStyle) (j : Json) (s : Str) :
    skipWs (render st j ++ s) = render st j ++ s := by
  obtain ⟨c, t, ht, hc⟩ := render_cons st j
  rw [ht, List.cons_append, skipWs_of_head hc.1]

theorem numEnd_arrTail (st : JsonStyle) (xs : List Json) (rest : Str) :
    NumEnd (arrTail st xs ++ rest) := by
  cases xs with
  | nil => rintro c ⟨⟩; decide
  | cons x xs => rintro c ⟨⟩; decide

theorem numEnd_objTail (st : JsonStyle) (kvs : List (Str × Json)) (rest : Str) :
    NumEnd (objTail st kvs ++ rest) := by
  cases kvs with
  | nil => rintro c ⟨⟩; decide
  | cons p kvs => rintro c ⟨⟩; decide

/-! ## Values -/

mutual

/-- No string of the tree holds a high surrogate right before a low one. -/
def Json.Unpaired : Json → Prop
  | .str s => Py.Unpaired s
  | .arr xs => UnpairedElems xs
  | .obj kvs => UnpairedMembers kvs
  | _ => True

def UnpairedElems : List Json → Prop
  | [] => True
  | x :: xs => x.Unpaired ∧ UnpairedElems xs

def UnpairedMembers : List (Str × Json) → Prop
  | [] => True
  | (k, v) :: kvs => (Py.Unpaired k ∧ v.Unpaired) ∧ UnpairedMembers kvs

end

@[simp] theorem unpairedElems_iff : ∀ xs, UnpairedElems xs ↔ ∀ x ∈ xs, x.Unpaired
  | [] => by simp [UnpairedElems]
  | x :: xs => by rw [UnpairedElems, unpairedElems_iff xs, List.forall_mem_cons]

@[simp] theorem unpairedMembers_iff :
    ∀ kvs, UnpairedMembers kvs ↔ ∀ p ∈ kvs, Py.Unpaired p.1 ∧ p.2.Unpaired
  | [] => by simp [UnpairedMembers]
  | (k, v) :: kvs => by rw [UnpairedMembers, unpairedMembers_iff kvs, List.forall_mem_cons]

section

variable (st : JsonStyle)

/-- Reading what was written for `j` gives `j` back, whatever follows. -/
def ReadsBack (j : Json) : Prop :=
  ∀ (n : Nat) (rest : Str), (render st j).length ≤ n → NumEnd rest →
    value n (render st j ++ rest) = some (j, rest)

theorem readsBack_atom {j : Json} (hj : j.isAtom = true) : ReadsBack st j := by
  intro n rest hn hrest
  have hscan := scanAtom_render st hj hrest
  obtain ⟨c, t, ht, _, h34, h91, h123⟩ := render_atom_cons st hj
  rw [ht, List.length_cons] at hn
  obtain ⟨m, rfl⟩ := Nat.exists_eq_add_of_le' (show 1 ≤ n by omega)
  rw [ht, List.cons_append] at hscan ⊢
  rw [value, if_neg h34, if_neg h91, if_neg h123, hscan]

theorem elems_arrTail {xs : List Json} (h : ∀ x ∈ xs, ReadsBack st x) :
    ∀ (n : Nat) (rest : Str), (arrTail st xs).length ≤ n →
      elems n (arrTail st xs ++ rest) = some (xs, rest) := by
  induction xs with
  | nil =>
    intro n rest hn
    obtain ⟨m, rfl⟩ := Nat.exists_eq_add_of_le' (show 1 ≤ n by simpa [arrTail] using hn)
    rw [arrTail, List.cons_append, List.nil_append, elems, skipWs_of_head (by decide)]
    simp
  | cons x xs ih =>
    intro n rest hn
    simp only [arrTail, List.length_cons, List.length_append] at hn
    obtain ⟨m, rfl⟩ := Nat.exists_eq_add_of_le' (show 1 ≤ n by omega)
    have hx := h x List.mem_cons_self m (arrTail st xs ++ rest) (by omega) (numEnd_arrTail _ _ _)
    have hxs := ih (fun y hy => h y (List.mem_cons_of_mem _ hy)) m rest (by omega)
    rw [arrTail, List.cons_append, elems, skipWs_of_head (by decide)]
    simp only [if_neg (show ¬(44 : CodePoint) = 93 by decide), if_true, List.append_assoc,
      skipWs_append st.itemPad_ws, skipWs_render, hx, hxs, Option.map_some]

theorem quote_append (k s : Str) :
    quote st.ensureAscii k ++ s = 34 :: (k.flatMap (escapeChar st.ensureAscii) ++ 34 :: s) := by
  simp [quote]

theorem member_render {k : Str} {v : Json} (hk : st.ensureAscii = true → Unpaired k)
    (h : ReadsBack st v) (n : Nat) (s : Str) (hn : (render st v).length ≤ n) (hs : NumEnd s) :
    member (n + 1) (quote st.ensureAscii k ++ 58 :: (st.keyPad ++ (render st v ++ s)))
      = some ((k, v), s) := by
  have hv := h n s hn hs
  rw [quote_append, member, if_pos rfl]
  simp only [scanString_escape _ _ _ hk, skipWs_of_head (show isWs 58 = false by decide), if_true,
    skipWs_append st.keyPad_ws, skipWs_render, hv, Option.map_some]

theorem members_objTail {kvs : List (Str × Json)}
    (hk : ∀ p ∈ kvs, st.ensureAscii = true → Unpaired p.1) (h : ∀ p ∈ kvs, ReadsBack st p.2) :
    ∀ (n : Nat) (rest : Str), (objTail st kvs).length ≤ n →
      members n (objTail st kvs ++ rest) = some (kvs, rest) := by
  induction kvs with
  | nil =>
    intro n rest hn
    obtain ⟨m, rfl⟩ := Nat.exists_eq_add_of_le' (show 1 ≤ n by simpa [objTail] using hn)
    rw [objTail, List.cons_append, List.nil_append, members, skipWs_of_head (by decide)]
    simp
  | cons p kvs ih =>
    obtain ⟨k, v⟩ := p
    intro n rest hn
    simp only [objTail, quote, List.length_cons, List.length_append] at hn
    obtain ⟨m, rfl⟩ := Nat.exists_eq_add_of_le' (show 2 ≤ n by omega)
    have hp := member_render st (hk (k, v) List.mem_cons_self) (h (k, v) List.mem_cons_self) m
      (objTail st kvs ++ rest) (by simp only []; omega) (numEnd_objTail _ _ _)
    have hkvs :=
      ih (fun q hq => hk q (List.mem_cons_of_mem _ hq))
      (fun q hq => h q (List.mem_cons_of_mem _ hq)) (m + 1) rest (by omega)
    have hq : ∀ s, skipWs (quote st.ensureAscii k ++ s) = quote st.ensureAscii k ++ s :=
      fun s => skipWs_of_head (by decide) _
    rw [objTail, List.cons_append, members, skipWs_of_head (by decide)]
    simp only [if_neg (show ¬(44 : CodePoint) = 125 by decide), if_true, List.append_assoc,
      List.cons_append, skipWs_append st.itemPad_ws, hq, hp, hkvs, Option.map_some]

/-- **Every tree reads back.** -/
theorem readsBack (j : Json) (hj : st.ensureAscii = true → j.Unpaired) : ReadsBack st j := by
  induction j using Json.ind with
  | hnull => exact readsBack_atom st rfl
  | hbool b => exact readsBack_atom st rfl
  | hint i => exact readsBack_atom st rfl
  | hfloat f => exact readsBack_atom st rfl
  | hstr s =>
    intro n rest hn _
    obtain ⟨m, rfl⟩ := Nat.exists_eq_add_of_le' (show 1 ≤ n by
      simp only [render, quote, List.cons_append, List.length_cons] at hn; omega)
    rw [render, quote_append, value, if_pos rfl, scanString_escape _ _ _ hj, Option.map_some]
  | harr xs ih =>
    intro n rest hn _
    simp only [Json.Unpaired, unpairedElems_iff] at hj
    have ih : ∀ x ∈ xs, ReadsBack st x := fun x hx => ih x hx fun h => hj h x hx
    cases xs with
    | nil =>
      obtain ⟨m, rfl⟩ := Nat.exists_eq_add_of_le' (show 1 ≤ n by simp [render] at hn; omega)
      rw [render, List.cons_append, List.cons_append, value, if_neg (by decide), if_pos rfl,
        skipWs_of_head (by decide)]
      simp
    | cons x xs =>
      simp only [render, List.length_cons, List.length_append] at hn
      obtain ⟨m, rfl⟩ := Nat.exists_eq_add_of_le' (show 1 ≤ n by omega)
      -- the bracket takes one unit of fuel, and what follows an element ends it
      have hx := ih x List.mem_cons_self m (arrTail st xs ++ rest) (by omega) (numEnd_arrTail _ _ _)
      have hxs := elems_arrTail st (fun y hy => ih y (List.mem_cons_of_mem _ hy)) m rest (by omega)
      obtain ⟨c, t, ht, hc⟩ := render_cons st x
      rw [render, List.cons_append, value, if_neg (by decide), if_pos rfl, List.append_assoc,
        skipWs_render]
      rw [ht, List.cons_append] at hx ⊢
      simp only [hc.2.1, if_false, hx, hxs, Option.map_some]
  | hobj kvs ih =>
    intro n rest hn _
    simp only [Json.Unpaired, unpairedMembers_iff] at hj
    have ih : ∀ p ∈ kvs, ReadsBack st p.2 := fun p hp => ih p hp fun h => (hj h p hp).2
    have hk : ∀ p ∈ kvs, st.ensureAscii = true → Unpaired p.1 := fun p hp h => (hj h p hp).1
    cases kvs with
    | nil =>
      obtain ⟨m, rfl⟩ := Nat.exists_eq_add_of_le' (show 1 ≤ n by simp [render] at hn; omega)
      rw [render, List.cons_append, List.cons_append, value, if_neg (by decide),
        if_neg (by decide), if_pos rfl, skipWs_of_head (by decide)]
      simp
    | cons p kvs =>
      obtain ⟨k, v⟩ := p
      simp only [render, quote, List.length_cons, List.length_append] at hn
      obtain ⟨m, rfl⟩ := Nat.exists_eq_add_of_le' (show 2 ≤ n by omega)
      have hp := member_render st (hk (k, v) List.mem_cons_self) (ih (k, v) List.mem_cons_self) m
        (objTail st kvs ++ rest) (by simp only []; omega) (numEnd_objTail _ _ _)
      have hkvs := members_objTail st (fun q hq => hk q (List.mem_cons_of_mem _ hq))
        (fun q hq => ih q (List.mem_cons_of_mem _ hq)) (m + 1) rest (by omega)
      rw [render, List.cons_append, value, if_neg (by decide), if_neg (by decide), if_pos rfl]
      simp only [List.append_assoc, List.cons_append]
      rw [quote, List.cons_append, List.cons_append, skipWs_of_head (by decide)]
      rw [quote, List.cons_append, List.cons_append] at hp
      simp only [if_neg (show ¬(34 : CodePoint) = 125 by decide), hp, hkvs, Option.map_some]

/-- **A written tree reads back as itself**, white space after it or not: in ASCII, a tree without
paired surrogates. -/
theorem parse_render_append {j : Json} (hj : st.ensureAscii = true → j.Unpaired) {ws : Str}
    (hws : ∀ c ∈ ws, isWs c = true) : parse (render st j ++ ws) = some j := by
  obtain ⟨c, t, ht, hc⟩ := render_cons st j
  have hbom : ¬(render st j ++ ws).head? = some 0xFEFF := by
    rw [ht]
    simpa using hc.2.2
  have hend : NumEnd ws := by
    intro d hd
    have hd := hws d (List.mem_of_mem_head? hd)
    simp only [isWs, Bool.or_eq_true, beq_iff_eq] at hd
    rcases hd with ((rfl | rfl) | rfl) | rfl <;> decide
  have hskip : skipWs ws = [] := by
    have h := skipWs_append hws []
    rwa [List.append_nil] at h
  have hv := readsBack st j hj (render st j ++ ws).length ws (by simp) hend
  rw [parse, if_neg hbom, skipWs_render, hv]
  simp [hskip]

variable (hst : st.ensureAscii = false)

include hst in
/-- Without `ensure_ascii` every tree reads back as itself. -/
theorem parse_render (j : Json) : parse (render st j) = some j := by
  have hnil : ∀ c ∈ ([] : Str), isWs c = true := by simp
  have h := parse_render_append st (j := j) (fun h => by rw [hst] at h; cases h) hnil
  rwa [List.append_nil] at h

include hst in
/-- **The text determines the tree.** -/
theorem render_injective {a b : Json} (h : render st a = render st b) : a = b := by
  have ha := parse_render st hst a
  rw [h, parse_render st hst b] at ha
  exact (Option.some.inj ha).symm

end

end Py
