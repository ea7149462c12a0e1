import Msb.Infra.PyReload

/-!
# The characters of a JSON text

A JSON text is made of printable ASCII characters, the white space of its separators and, without
`ensure_ascii`, the characters of its strings as they are. Control characters are always escaped.
Under `ensure_ascii` the text always has a UTF-8 form: surrogates are written as escapes.

* `all_render` — the characters of a text
* `ascii_render` — under `ensure_ascii` the text is ASCII
* `dumps_encode_isOk` — writing and encoding fails only where the keys cannot be sorted
-/

namespace Py

/-- A visible ASCII character, or a space. -/
def Printable (c : CodePoint) : Prop := 32 ≤ c.val ∧ c.val < 127

/-- Every character is below 128. -/
def Ascii (s : Str) : Prop := ∀ c ∈ s, c.val < 128

theorem encode_of_ascii {s : Str} (h : Ascii s) : ∃ b, encode s = some b := by
  refine encode_of_scalar fun c hc => ?_
  have hvalid : c.val.isValidChar := Or.inl (Nat.lt_trans (h c hc) (by decide))
  rw [scalar?, dif_pos hvalid]
  rfl

/-! ## Unpaired surrogates -/

theorem unpaired_of_forall {s : Str} (h : ∀ c ∈ s, ¬(0xD800 ≤ c.val ∧ c.val ≤ 0xDBFF)) :
    Unpaired s := by
  induction s with
  | nil => exact .nil
  | cons c s ih =>
    have ih := ih fun d hd => h d (List.mem_cons_of_mem _ hd)
    cases s with
    | nil => exact .singleton _
    | cons d s => exact .cons_cons (fun hpair => h c List.mem_cons_self hpair.1) ih

theorem unpaired_of_ascii {s : Str} (h : Ascii s) : Unpaired s :=
  unpaired_of_forall fun c hc hhigh => absurd (h c hc) (by omega)

/-- A text with a UTF-8 form has no surrogates at all. -/
theorem unpaired_of_scalar {s : Str} (h : ∀ c ∈ s, (scalar? c).isSome = true) : Unpaired s := by
  refine unpaired_of_forall fun c hc hhigh => ?_
  obtain ⟨x, hx⟩ := Option.isSome_iff_exists.mp (h c hc)
  unfold scalar? at hx
  split at hx
  · next hvalid =>
    rcases hvalid with hlt | hlt
    · omega
    · omega
  · cases hx

/-- A dict whose keys and values are written without paired surrogates. -/
theorem unpaired_dict {S : KeySort} {items : List (PyKey × PyVal)}
    (h : ∀ p ∈ items, Unpaired (keyText p.1) ∧ (toJson S true p.2).Unpaired) :
    (toJson S true (.dict items)).Unpaired := by
  simp only [toJson, toJsonItems_eq, if_true, Json.Unpaired, unpairedMembers_iff]
  rintro _ hp
  obtain ⟨q, hq, rfl⟩ := List.mem_map.mp hp
  obtain ⟨r, hr, rfl⟩ := List.mem_map.mp ((S.perm _).mem_iff.mp hq)
  exact h r hr

/-- **What was written is read as the value it reloads to**, white space after it or not. -/
theorem loads_render {S : KeySort} {st : JsonStyle} {v : PyVal}
    (hv : st.ensureAscii = true → (toJson S true v).Unpaired) {ws : Str}
    (hws : ∀ c ∈ ws, isWs c = true) :
    loads (render st (toJson S true v) ++ ws) = .ok (reload S v) := by
  rw [loads, parse_render_append st hv hws]
  rfl

/-! ## Pieces -/

theorem printable_hexChar {d : Nat} (h : d < 16) : Printable (hexChar d) := by
  interval_cases d <;> exact ⟨by decide, by decide⟩

theorem printable_uEscape (n : Nat) : ∀ c ∈ uEscape n, Printable c := by
  have hdigit : ∀ m, Printable (hexChar (m % 16)) := fun m =>
    printable_hexChar (Nat.mod_lt _ (by decide))
  have hletter : Printable 92 ∧ Printable 117 := ⟨⟨by decide, by decide⟩, ⟨by decide, by decide⟩⟩
  simp [uEscape, hdigit, hletter]

/-- What is not printable is escaped, but for raw text above the control characters. -/
theorem mem_escapeChar {ascii : Bool} {c d : CodePoint} (h : d ∈ escapeChar ascii c) :
    Printable d ∨ ascii = false ∧ 32 ≤ d.val := by
  have hsimple : ∀ e : CodePoint, Printable e → d ∈ [92, e] →
      Printable d ∨ ascii = false ∧ 32 ≤ d.val := by
    intro e he hd
    rcases List.mem_pair.mp hd with rfl | rfl
    · exact Or.inl ⟨by decide, by decide⟩
    · exact Or.inl he
  unfold escapeChar at h
  split at h
  · exact hsimple 34 ⟨by decide, by decide⟩ h
  split at h
  · exact hsimple 92 ⟨by decide, by decide⟩ h
  split at h
  · exact hsimple 110 ⟨by decide, by decide⟩ h
  split at h
  · exact hsimple 114 ⟨by decide, by decide⟩ h
  split at h
  · exact hsimple 116 ⟨by decide, by decide⟩ h
  split at h
  · exact hsimple 102 ⟨by decide, by decide⟩ h
  split at h
  · exact hsimple 98 ⟨by decide, by decide⟩ h
  split at h
  · exact Or.inl (printable_uEscape _ d h)
  split at h
  · split at h
    · exact Or.inl (printable_uEscape _ d h)
    · rcases List.mem_append.mp h with h | h
      · exact Or.inl (printable_uEscape _ d h)
      · exact Or.inl (printable_uEscape _ d h)
  · next hcontrol hraw =>
    obtain rfl := List.mem_singleton.mp h
    cases ascii with
    | false => exact Or.inr ⟨rfl, not_lt.mp hcontrol⟩
    | true =>
      simp only [Bool.true_and, decide_eq_true_eq] at hraw
      exact Or.inl ⟨not_lt.mp hcontrol, by omega⟩

theorem printable_digits {ds : List Nat} (h : ∀ d ∈ ds, d < 10) :
    ∀ c ∈ ds.map digitChar, Printable c := by
  intro c hc
  obtain ⟨d, hd, rfl⟩ := List.mem_map.mp hc
  have hlt := h d hd
  interval_cases d <;> exact ⟨by decide, by decide⟩

theorem printable_numText {l : NumLit} (hl : l.WellFormed) : ∀ c ∈ l.text, Printable c := by
  have hmark : Printable 45 ∧ Printable 46 ∧ Printable 101 ∧ Printable 43 :=
    ⟨⟨by decide, by decide⟩, ⟨by decide, by decide⟩, ⟨by decide, by decide⟩, ⟨by decide, by decide⟩⟩
  have hsign : ∀ c ∈ (if l.neg then [45] else []), Printable c := by
    split
    · simp [hmark]
    · simp
  have hfrac : ∀ c ∈ NumLit.fracText l.frac, Printable c := by
    cases hf : l.frac with
    | none => simp [NumLit.fracText]
    | some ds =>
      rw [NumLit.fracText]
      exact List.forall_mem_cons.mpr ⟨hmark.2.1, printable_digits (hl.frac_lt ds hf).2⟩
  have hexp : ∀ c ∈ NumLit.expText l.exp, Printable c := by
    cases he : l.exp with
    | none => simp [NumLit.expText]
    | some p =>
      obtain ⟨neg, ds⟩ := p
      have hds := printable_digits (hl.exp_lt _ he).2
      rw [NumLit.expText]
      refine List.forall_mem_cons.mpr ⟨hmark.2.2.1, List.forall_mem_cons.mpr ⟨?_, hds⟩⟩
      split
      · exact hmark.1
      · exact hmark.2.2.2
  rw [NumLit.text]
  simp only [List.forall_mem_append]
  exact ⟨hsign, printable_digits hl.int_lt, hfrac, hexp⟩

theorem printable_lit {w : Str} (h : w.all (fun c => 32 ≤ c.val ∧ c.val < 127) = true) :
    ∀ c ∈ w, Printable c := by
  intro c hc
  simpa [Printable] using List.all_eq_true.mp h c hc

theorem printable_floatText (f : PyFloat) : ∀ c ∈ floatText f, Printable c := by
  cases f with
  | finite x => exact printable_numText (reprLit_wellFormed x)
  | inf neg => cases neg <;> exact printable_lit (by decide)
  | nan => exact printable_lit (by decide)

/-! ## Trees -/

/-- `Q` holds of whatever the style writes: printable characters, raw ones, and separators. -/
structure JsonStyle.Admits (st : JsonStyle) (Q : CodePoint → Prop) : Prop where
  printable : ∀ c, Printable c → Q c
  raw : st.ensureAscii = false → ∀ c : CodePoint, 32 ≤ c.val → Q c
  itemPad : ∀ c ∈ st.itemPad, Q c
  keyPad : ∀ c ∈ st.keyPad, Q c

section

variable {st : JsonStyle} {Q : CodePoint → Prop} (h : st.Admits Q)

include h

theorem all_quote (s : Str) : ∀ c ∈ quote st.ensureAscii s, Q c := by
  intro c hc
  simp only [quote, List.cons_append, List.mem_cons, List.mem_append, List.mem_flatMap,
    List.mem_nil_iff, or_false] at hc
  rcases hc with rfl | ⟨d, -, hd⟩ | rfl
  · exact h.printable _ ⟨by decide, by decide⟩
  · rcases mem_escapeChar hd with hp | ⟨hst, h32⟩
    · exact h.printable c hp
    · exact h.raw hst c h32
  · exact h.printable _ ⟨by decide, by decide⟩

mutual

/-- **The characters of a text**: those that the style admits. -/
theorem all_render : ∀ j : Json, ∀ c ∈ render st j, Q c
  | .null | .bool true | .bool false => fun c hc => by
    rw [render] at hc
    exact h.printable c (printable_lit (by decide) c hc)
  | .int i => fun c hc => h.printable c (printable_numText (intLit_wellFormed i) c hc)
  | .float f => fun c hc => h.printable c (printable_floatText f c hc)
  | .str s => all_quote h s
  | .arr [] | .obj [] => fun c hc => by
    rw [render] at hc
    exact h.printable c (printable_lit (by decide) c hc)
  | .arr (x :: xs) => by
    rw [render]
    simp only [List.forall_mem_cons, List.forall_mem_append]
    exact ⟨h.printable _ ⟨by decide, by decide⟩, all_render x, all_arrTail xs⟩
  | .obj ((k, v) :: kvs) => by
    rw [render]
    simp only [List.forall_mem_cons, List.forall_mem_append]
    exact ⟨h.printable _ ⟨by decide, by decide⟩, all_quote h k,
      h.printable _ ⟨by decide, by decide⟩, h.keyPad, all_render v, all_objTail kvs⟩

theorem all_arrTail : ∀ xs : List Json, ∀ c ∈ arrTail st xs, Q c
  | [] => fun c hc => by
    rw [arrTail] at hc
    exact h.printable c (printable_lit (by decide) c hc)
  | x :: xs => by
    rw [arrTail]
    simp only [List.forall_mem_cons, List.forall_mem_append]
    exact ⟨h.printable _ ⟨by decide, by decide⟩, h.itemPad, all_render x, all_arrTail xs⟩

theorem all_objTail : ∀ kvs : List (Str × Json), ∀ c ∈ objTail st kvs, Q c
  | [] => fun c hc => by
    rw [objTail] at hc
    exact h.printable c (printable_lit (by decide) c hc)
  | (k, v) :: kvs => by
    rw [objTail]
    simp only [List.forall_mem_cons, List.forall_mem_append]
    exact ⟨h.printable _ ⟨by decide, by decide⟩, h.itemPad, all_quote h k,
      h.printable _ ⟨by decide, by decide⟩, h.keyPad, all_render v, all_objTail kvs⟩

end

end

/-- **Under `ensure_ascii` the text of a tree is ASCII.** -/
theorem ascii_render (st : JsonStyle) (hst : st.ensureAscii = true) (j : Json) :
    Ascii (render st j) := by
  have hpad : ∀ s : Str, (∀ c ∈ s, isWs c = true) → ∀ c ∈ s, c.val < 128 := by
    intro s h c hc
    have hws := h c hc
    simp only [isWs, Bool.or_eq_true, beq_iff_eq] at hws
    rcases hws with ((rfl | rfl) | rfl) | rfl <;> decide
  refine all_render ⟨fun c hc => Nat.lt_succ_of_lt hc.2, fun h => ?_, hpad _ st.itemPad_ws,
    hpad _ st.keyPad_ws⟩ j
  rw [hst] at h
  cases h

/-- **No text of a tree holds a control character**, where the separators hold none. -/
theorem noControl_render {st : JsonStyle} (hitem : ∀ c ∈ st.itemPad, 32 ≤ c.val)
    (hkey : ∀ c ∈ st.keyPad, 32 ≤ c.val) (j : Json) : ∀ c ∈ render st j, 32 ≤ c.val :=
  all_render ⟨fun _ hc => hc.1, fun _ _ hc => hc, hitem, hkey⟩ j

/-- **A value whose keys can be sorted has an ASCII text, and the text has a UTF-8 form.** -/
theorem dumps_encode_isOk {S : KeySort} {st : JsonStyle} (hst : st.ensureAscii = true) {v : PyVal} :
    (∃ b, (dumps S true st v >>= encodeE) = .ok b) ↔ sortable v = true := by
  unfold dumps
  cases hv : sortable v with
  | false => simp [bind, Except.bind]
  | true =>
    obtain ⟨b, hb⟩ := encode_of_ascii (ascii_render st hst (toJson S true v))
    simp only [bind, Except.bind, Bool.not_true, Bool.and_false, Bool.false_eq_true, if_false,
      iff_true]
    exact ⟨b, encodeE_eq_ok.mpr hb⟩

end Py
