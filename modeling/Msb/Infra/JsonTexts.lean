import Msb.Infra.CutText
import Msb.Infra.JsonAscii

/-!
# The texts of a tree

The keys and the strings of a JSON tree. Where a style does not escape, a character beyond ASCII is
in the text of a tree exactly where it is in one of its texts.

* `mem_render_iff`
* `encode_render_isSome` — the text of a tree has a UTF-8 form where its texts have one
-/

namespace Py

mutual

/-- The keys and the strings of a tree. -/
def Json.texts : Json → List Str
  | .null | .bool _ | .int _ | .float _ => []
  | .str s => [s]
  | .arr xs => textsElems xs
  | .obj kvs => textsMembers kvs

def textsElems : List Json → List Str
  | [] => []
  | x :: xs => x.texts ++ textsElems xs

def textsMembers : List (Str × Json) → List Str
  | [] => []
  | (k, v) :: kvs => k :: (v.texts ++ textsMembers kvs)

end

section

variable {st : JsonStyle} {c : CodePoint} (hc : 128 ≤ c.val)

include hc

theorem ne_of_ascii {d : CodePoint} (hd : d.val < 128) : c ≠ d := fun h => by
  subst h
  omega

theorem not_mem_of_printable {s : Str} (h : ∀ d ∈ s, Printable d) : c ∉ s := fun hmem => by
  have := (h c hmem).2
  omega

theorem not_mem_of_ws {s : Str} (h : ∀ d ∈ s, isWs d = true) : c ∉ s := fun hmem => by
  have hws := h c hmem
  simp only [isWs, Bool.or_eq_true, beq_iff_eq] at hws
  rcases hws with ((rfl | rfl) | rfl) | rfl <;> exact absurd hc (by decide)

theorem mem_escapeChar_iff {d : CodePoint} : c ∈ escapeChar false d ↔ c = d := by
  by_cases hd : 128 ≤ d.val
  · have hraw : escapeChar false d = [d] := by
      unfold escapeChar
      simp [ne_of_ascii hd (show (34 : CodePoint).val < 128 by decide),
        ne_of_ascii hd (show (92 : CodePoint).val < 128 by decide),
        ne_of_ascii hd (show (10 : CodePoint).val < 128 by decide),
        ne_of_ascii hd (show (13 : CodePoint).val < 128 by decide),
        ne_of_ascii hd (show (9 : CodePoint).val < 128 by decide),
          ne_of_ascii hd (show (12 : CodePoint).val < 128 by decide),
        ne_of_ascii hd (show (8 : CodePoint).val < 128 by decide), show ¬d.val < 32 by omega]
    rw [hraw, List.mem_singleton]
  · refine iff_of_false (fun hmem => ?_) fun h => hd (h ▸ hc)
    by_cases h127 : d.val = 127
    · obtain rfl : d = 127 := Fin.ext h127
      exact absurd hc (by rw [List.mem_singleton.mp hmem]; decide)
    · -- below 127 it makes no difference whether the style escapes
      have hsame : escapeChar false d = escapeChar true d := by
        unfold escapeChar
        simp [show ¬126 < d.val by omega]
      rw [hsame] at hmem
      rcases mem_escapeChar hmem with h | h
      · have := h.2
        omega
      · cases h.1

theorem mem_quote_iff {s : Str} : c ∈ quote false s ↔ c ∈ s := by
  have h34 : c ≠ 34 := ne_of_ascii hc (by decide)
  simp [quote, h34, mem_escapeChar_iff hc]

mutual

/-- **A character beyond ASCII is in the text of a tree** exactly where it is in one of its texts.
-/
theorem mem_render_iff (hst : st.ensureAscii = false) : ∀ j : Json, c ∈ render st j ↔
    ∃ s ∈ j.texts, c ∈ s
  | .null | .bool true | .bool false => by
    rw [render]
    simpa [Json.texts] using not_mem_of_printable hc (printable_lit (by decide))
  | .int i => by
    rw [render]
    simpa [Json.texts] using not_mem_of_printable hc (printable_numText (intLit_wellFormed i))
  | .float f => by
    rw [render]
    simpa [Json.texts] using not_mem_of_printable hc (printable_floatText f)
  | .str s => by
    rw [render, hst, mem_quote_iff hc]
    simp [Json.texts]
  | .arr [] => by
    have h91 : c ≠ 91 := ne_of_ascii hc (by decide)
    have h93 : c ≠ 93 := ne_of_ascii hc (by decide)
    simp [render, Json.texts, textsElems, h91, h93]
  | .obj [] => by
    have h123 : c ≠ 123 := ne_of_ascii hc (by decide)
    have h125 : c ≠ 125 := ne_of_ascii hc (by decide)
    simp [render, Json.texts, textsMembers, h123, h125]
  | .arr (x :: xs) => by
    have h91 : c ≠ 91 := ne_of_ascii hc (by decide)
    rw [render, List.mem_cons, List.mem_append, mem_render_iff hst x, mem_arrTail_iff hst xs]
    simp [h91, Json.texts, textsElems, or_and_right, exists_or]
  | .obj ((k, v) :: kvs) => by
    have h123 : c ≠ 123 := ne_of_ascii hc (by decide)
    have h58 : c ≠ 58 := ne_of_ascii hc (by decide)
    rw [render, hst]
    simp only [List.mem_cons, List.mem_append, mem_quote_iff hc, mem_render_iff hst v,
      mem_objTail_iff hst kvs, h123, h58, false_or,
      not_mem_of_ws hc st.keyPad_ws, Json.texts, textsMembers]
    simp [or_and_right, exists_or]

theorem mem_arrTail_iff (hst : st.ensureAscii = false) : ∀ xs : List Json, c ∈ arrTail st xs ↔
    ∃ s ∈ textsElems xs, c ∈ s
  | [] => by
    have h93 : c ≠ 93 := ne_of_ascii hc (by decide)
    simp [arrTail, textsElems, h93]
  | x :: xs => by
    have h44 : c ≠ 44 := ne_of_ascii hc (by decide)
    rw [arrTail]
    simp only [List.mem_cons, List.mem_append, mem_render_iff hst x, mem_arrTail_iff hst xs,
      h44, false_or, not_mem_of_ws hc st.itemPad_ws, textsElems]
    simp [or_and_right, exists_or]

theorem mem_objTail_iff (hst : st.ensureAscii = false) : ∀ kvs : List (Str × Json),
    c ∈ objTail st kvs ↔ ∃ s ∈ textsMembers kvs, c ∈ s
  | [] => by
    have h125 : c ≠ 125 := ne_of_ascii hc (by decide)
    simp [objTail, textsMembers, h125]
  | (k, v) :: kvs => by
    have h44 : c ≠ 44 := ne_of_ascii hc (by decide)
    have h58 : c ≠ 58 := ne_of_ascii hc (by decide)
    rw [objTail, hst]
    simp only [List.mem_cons, List.mem_append, mem_quote_iff hc, mem_render_iff hst v,
      mem_objTail_iff hst kvs, h44, h58, false_or,
      not_mem_of_ws hc st.itemPad_ws, not_mem_of_ws hc st.keyPad_ws, textsMembers]
    simp [or_and_right, exists_or]

end

end

/-! ## The UTF-8 form of a tree -/

theorem scalar_of_ascii {c : CodePoint} (h : c.val < 128) : (scalar? c).isSome = true := by
  have hvalid : c.val.isValidChar := .inl (by omega)
  rw [scalar?, dif_pos hvalid]
  rfl

theorem encode_isSome_of_ascii {s : Str} (h : Ascii s) : (encode s).isSome = true :=
  encode_isSome.mpr fun c hc => scalar_of_ascii (h c hc)

/-- **The text of a tree has a UTF-8 form** exactly where its texts have one. -/
theorem encode_render_isSome {st : JsonStyle} (hst : st.ensureAscii = false) (j : Json) :
    (encode (render st j)).isSome = true ↔ ∀ s ∈ j.texts, (encode s).isSome = true := by
  simp only [encode_isSome]
  constructor
  · intro h s hs c hc
    by_cases hlarge : 128 ≤ c.val
    · exact h c ((mem_render_iff hlarge hst j).mpr ⟨s, hs, hc⟩)
    · exact scalar_of_ascii (by omega)
  · intro h c hc
    by_cases hlarge : 128 ≤ c.val
    · obtain ⟨s, hs, hcs⟩ := (mem_render_iff hlarge hst j).mp hc
      exact h s hs c hcs
    · exact scalar_of_ascii (by omega)

theorem mem_textsMembers {s : Str} {kvs : List (Str × Json)} :
    s ∈ textsMembers kvs ↔ ∃ p ∈ kvs, s = p.1 ∨ s ∈ p.2.texts := by
  induction kvs with
  | nil => simp [textsMembers]
  | cons p kvs ih =>
    obtain ⟨k, v⟩ := p
    rw [textsMembers, List.mem_cons, List.mem_append, ih]
    simp [or_assoc]

/-- The texts of a dict are those of its keys and its values. -/
theorem mem_texts_dict {S : KeySort} {s : Str} {items : List (PyKey × PyVal)} :
    s ∈ (toJson S true (.dict items)).texts ↔
    ∃ p ∈ items, s = keyText p.1 ∨ s ∈ (toJson S true p.2).texts := by
  simp only [toJson, toJsonItems_eq, if_true, Json.texts, mem_textsMembers]
  constructor
  · rintro ⟨_, hp, hs⟩
    obtain ⟨q, hq, rfl⟩ := List.mem_map.mp hp
    obtain ⟨r, hr, rfl⟩ := List.mem_map.mp ((S.perm _).mem_iff.mp hq)
    exact ⟨r, hr, hs⟩
  · rintro ⟨r, hr, hs⟩
    exact ⟨_, List.mem_map.mpr ⟨_, (S.perm _).mem_iff.mpr (List.mem_map.mpr ⟨r, hr, rfl⟩), rfl⟩, hs⟩

end Py
