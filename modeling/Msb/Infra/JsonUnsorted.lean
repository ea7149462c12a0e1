import Msb.Infra.JsonAscii
import Msb.Infra.Lines
import Msb.Infra.PyReload

/-!
# Writing without sorting

Without `sort_keys` a dict is written in its own order, and read in it.

* `ofJson_toJson_unsorted` — a value that `loads` can return comes back as it is
* `loads_strip_dict` — the text of a dict is read with white space around it stripped
-/

namespace Py

variable (S : KeySort)

/-- **A value that was read is written and read as itself.** -/
theorem ofJson_toJson_unsorted (v : PyVal) (h : Parsed v) : ofJson (toJson S false v) = v := by
  induction v using PyVal.ind with
  | hlist xs ih =>
    cases h with
    | list hxs =>
      rw [toJson, toJsonElems_eq, ofJson, ofJsonElems_eq, List.map_map]
      congr 1
      refine (List.map_congr_left fun x hx => ?_).trans (List.map_id xs)
      exact ih x hx (parsedElems_iff.mp hxs x hx)
  | htuple xs ih => cases h
  | hdict items ih =>
    cases h with
    | dict hd hitems =>
      simp only [toJson, toJsonItems_eq, Bool.false_eq_true, if_false, ofJson, ofJsonMembers_eq,
        List.map_map]
      have hsame : items.map (fun p => (keyText p.1, ofJson (toJson S false p.2))) =
          items.map fun p => (keyText p.1, p.2) :=
        List.map_congr_left fun p hp => by rw [ih p hp (parsedItems_iff.mp hitems p hp)]
      show PyVal.dict (dictOfPairs (items.map fun p => (keyText p.1, ofJson (toJson S false p.2))))
        = .dict items
      rw [hsame, dictOfPairs_of_nodup]
      · rw [List.map_map]
        congr 1
        refine (List.map_congr_left fun p hp => ?_).trans (List.map_id items)
        obtain ⟨s, hs⟩ := exists_str (hd.str p hp)
        show (PyKey.str (keyText p.1), p.2) = p
        rw [hs]
        exact Prod.ext hs.symm rfl
      · rw [List.map_map]
        refine (List.nodup_map_iff_inj_on (List.Nodup.of_map _ hd.nodup)).mpr
          fun p hp q hq heq => ?_
        have hkeys : p.1 = q.1 := keyText_injective (hd.str p hp) (hd.str q hq) heq
        exact (List.inj_on_of_nodup_map hd.nodup) hp hq hkeys
  | _ => rfl

theorem strKeyed_of_parsed (v : PyVal) (h : Parsed v) : strKeyed v = true := by
  induction v using PyVal.ind with
  | hlist xs ih =>
    cases h with
    | list hxs =>
      rw [strKeyed, strKeyedElems_eq, List.all_eq_true]
      exact fun x hx => ih x hx (parsedElems_iff.mp hxs x hx)
  | htuple xs ih => cases h
  | hdict items ih =>
    cases h with
    | dict hd hitems =>
      simp only [strKeyed, strKeyedItems_eq, Bool.and_eq_true, decide_eq_true_eq, List.all_eq_true]
      exact ⟨⟨hd.nodup, hd.str⟩, fun p hp => ih p hp (parsedItems_iff.mp hitems p hp)⟩
  | _ => rfl

/-- Sorted and read again, it is the same up to the order of the items. -/
theorem same_reload {v : PyVal} (h : Parsed v) : Same (reload S v) v :=
  same_of_toJson_eq S _ _ (parsed_ofJson _) h
    (toJson_reload S (stable_of_strKeyed S v (strKeyed_of_parsed v h)))

/-- What is written sorted without paired surrogates is written so unsorted. -/
theorem unpaired_unsorted (v : PyVal) (h : (toJson S true v).Unpaired) :
    (toJson S false v).Unpaired := by
  induction v using PyVal.ind with
  | hlist xs ih =>
    simp only [toJson, toJsonElems_eq, Json.Unpaired, unpairedElems_iff, List.forall_mem_map] at h ⊢
    exact fun x hx => ih x hx (h x hx)
  | htuple xs ih =>
    simp only [toJson, toJsonElems_eq, Json.Unpaired, unpairedElems_iff, List.forall_mem_map] at h ⊢
    exact fun x hx => ih x hx (h x hx)
  | hdict items ih =>
    simp only [toJson, toJsonItems_eq, Json.Unpaired, unpairedMembers_iff, Bool.false_eq_true,
      if_false, if_true] at h ⊢
    rintro _ hp
    obtain ⟨q, hq, rfl⟩ := List.mem_map.mp hp
    obtain ⟨r, hr, rfl⟩ := List.mem_map.mp hq
    have hsorted := h (keyText r.1, toJson S true r.2) (List.mem_map.mpr ⟨(r.1, toJson S true r.2),
      (S.perm _).mem_iff.mpr (List.mem_map.mpr ⟨r, hr, rfl⟩), rfl⟩)
    exact ⟨hsorted.1, ih r hr hsorted.2⟩
  | _ => exact h

theorem objTail_ends (st : JsonStyle) (kvs : List (Str × Json)) :
    ∃ s, objTail st kvs = s ++ [125] := by
  induction kvs with
  | nil => exact ⟨[], rfl⟩
  | cons p kvs ih =>
    obtain ⟨k, v⟩ := p
    obtain ⟨s, hs⟩ := ih
    refine ⟨44 ::
      (st.itemPad ++ (quote st.ensureAscii k ++ 58 :: (st.keyPad ++ (render st v ++ s)))), ?_⟩
    rw [objTail, hs]
    simp

/-- The braces. -/
theorem render_obj_ends (st : JsonStyle) (kvs : List (Str × Json)) :
    ∃ s, render st (.obj kvs) = 123 :: s ++ [125] := by
  cases kvs with
  | nil => exact ⟨[], rfl⟩
  | cons p kvs =>
    obtain ⟨k, v⟩ := p
    obtain ⟨s, hs⟩ := objTail_ends st kvs
    refine ⟨quote st.ensureAscii k ++ 58 :: (st.keyPad ++ (render st v ++ s)), ?_⟩
    rw [render, hs]
    simp

/-- `strip` takes the white space after a text that has none at its ends. -/
theorem strip_braces {s ws : Str} (hws : ∀ c ∈ ws, isSpace c = true) :
    strip (123 :: s ++ [125] ++ ws) = 123 :: s ++ [125] := by
  have hback : (123 :: s ++ [125] ++ ws).rdropWhile isSpace = 123 :: s ++ [125] := by
    induction ws using List.reverseRecOn with
    | nil =>
      rw [List.append_nil, List.rdropWhile_concat_neg]
      decide
    | append_singleton ws c ih =>
      rw [← List.append_assoc, List.rdropWhile_concat_pos _ _ _ (hws c (by simp))]
      exact ih fun d hd => hws d (List.mem_append_left _ hd)
  have hfront : (123 :: s ++ [125] ++ ws).dropWhile isSpace = 123 :: s ++ [125] ++ ws := rfl
  rw [strip, hfront, hback]

/-- **A line is read as the value that was written to it**, if `loads` can return the value. -/
theorem loads_strip_dict {st : JsonStyle} {items : List (PyKey × PyVal)}
    (hparsed : Parsed (.dict items))
    (hunpaired : (toJson S true (.dict items)).Unpaired) {ws : Str}
    (hws : ∀ c ∈ ws, isSpace c = true) :
    strip (render st (toJson S false (.dict items)) ++ ws) ≠ [] ∧
      loads (strip (render st (toJson S false (.dict items)) ++ ws)) = .ok (.dict items) := by
  obtain ⟨kvs, hkvs⟩ : ∃ kvs, toJson S false (.dict items) = .obj kvs := ⟨_, rfl⟩
  obtain ⟨s, hs⟩ := render_obj_ends st kvs
  have hread := parse_render_append st (fun _ => unpaired_unsorted S _ hunpaired)
    (fun c hc => absurd hc List.not_mem_nil)
  rw [List.append_nil] at hread
  rw [hkvs, hs, strip_braces hws, ← hs, ← hkvs]
  refine ⟨?_, ?_⟩
  · rw [hkvs, hs]
    simp
  · rw [loads, hread]
    exact congrArg Except.ok (ofJson_toJson_unsorted S _ hparsed)

end Py
