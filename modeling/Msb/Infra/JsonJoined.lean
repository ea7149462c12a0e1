import Msb.Infra.JsonAscii
import Msb.Infra.JsonIndent

/-!
# JSON text in ASCII

Under `ensure_ascii` a pair of surrogates and the character that it stands for have the same
escapes. So the text of a tree determines the tree up to its pairs, and writing what was read gives
the same text where the keys are increasing once the pairs are joined.

* `render_eq_iff` — when two trees have one text
* `reloadJoined_iff` — when a value that was written and read is written as before
-/

namespace Py

/-! ## Pairs of surrogates -/

/-- The code point that two surrogates stand for is escaped as the two. -/
theorem escapeChar_pair {c d : CodePoint} (hc : IsHigh c) (hd : IsLow d) :
    escapeChar true (Fin.ofNat _ (0x10000 + (c.val - 0xD800) * 1024 + (d.val - 0xDC00))) =
    escapeChar true c ++ escapeChar true d := by
  obtain ⟨hc₁, hc₂⟩ := hc
  obtain ⟨hd₁, hd₂⟩ := hd
  rw [escapeChar_surrogate ⟨hc₁, by omega⟩, escapeChar_surrogate ⟨by omega, hd₂⟩]
  set x : CodePoint := Fin.ofNat _ (0x10000 + (c.val - 0xD800) * 1024 + (d.val - 0xDC00)) with hx
  have hval : x.val = 0x10000 + (c.val - 0xD800) * 1024 + (d.val - 0xDC00) := by
    rw [hx, Fin.val_ofNat, Nat.mod_eq_of_lt (by omega)]
  have hne : ∀ w : CodePoint, w.val < 0x10000 → x ≠ w := by
    intro w hw heq
    rw [heq] at hval
    omega
  have hhigh : 0xD800 + (x.val - 0x10000) / 1024 = c.val := by omega
  have hlow : 0xDC00 + (x.val - 0x10000) % 1024 = d.val := by omega
  unfold escapeChar
  rw [if_neg (hne 34 (by decide)), if_neg (hne 92 (by decide)), if_neg (hne 10 (by decide)),
    if_neg (hne 13 (by decide)),
    if_neg (hne 9 (by decide)), if_neg (hne 12 (by decide)), if_neg (hne 8 (by decide)),
    if_neg (by omega),
    if_pos (by simp; omega), if_neg (by omega), hhigh, hlow]

theorem flatMap_joinSurrogates : ∀ s : Str, (joinSurrogates s).flatMap (escapeChar true) = s.flatMap
    (escapeChar true)
  | [] => rfl
  | [_] => rfl
  | c :: d :: s => by
    rw [joinSurrogates]
    split
    · next hpair =>
      rw [List.flatMap_cons, List.flatMap_cons, List.flatMap_cons, flatMap_joinSurrogates s,
        escapeChar_pair hpair.1 hpair.2, List.append_assoc]
    · rw [List.flatMap_cons, flatMap_joinSurrogates (d :: s), ← List.flatMap_cons]

/-- What is joined begins with the first character or with one that is no surrogate. -/
theorem head_joinSurrogates {c x : CodePoint} {s : Str} (h : x ∈ (joinSurrogates (c :: s)).head?) :
    x = c ∨ 0x10000 ≤ x.val := by
  cases s with
  | nil =>
    left
    simpa [joinSurrogates, eq_comm] using h
  | cons d s =>
    rw [joinSurrogates] at h
    split at h
    · next hpair =>
      obtain ⟨⟨_, _⟩, _, _⟩ := hpair
      right
      rw [List.head?_cons, Option.mem_some_iff] at h
      rw [← h, Fin.val_ofNat, Nat.mod_eq_of_lt (by omega)]
      omega
    · left
      simpa [eq_comm] using h

/-- No pair is left. -/
theorem unpaired_joinSurrogates : ∀ s : Str, Unpaired (joinSurrogates s)
  | [] => .nil
  | [_] => .singleton _
  | c :: d :: s => by
    rw [joinSurrogates]
    split
    · next hpair =>
      refine List.isChain_cons.mpr ⟨fun y _ hy => ?_, unpaired_joinSurrogates s⟩
      obtain ⟨⟨_, _⟩, _, _⟩ := hpair
      have hhigh := hy.1.2
      rw [Fin.val_ofNat, Nat.mod_eq_of_lt (by omega)] at hhigh
      omega
    · next hpair =>
      refine List.isChain_cons.mpr ⟨fun y hy hjoin => ?_, unpaired_joinSurrogates (d :: s)⟩
      rcases head_joinSurrogates hy with rfl | hlarge
      · exact hpair hjoin
      · have hlow := hjoin.2.2
        omega

/-! ## Trees -/

theorem unpaired_joined (j : Json) : j.joined.Unpaired := by
  induction j using Json.ind with
  | hstr s => exact unpaired_joinSurrogates s
  | harr xs ih =>
    simpa only [Json.joined, joinedElems_eq, Json.Unpaired, unpairedElems_iff, List.forall_mem_map]
      using ih
  | hobj kvs ih =>
    simp only [Json.joined, joinedMembers_eq, Json.Unpaired, unpairedMembers_iff,
      List.forall_mem_map]
    exact fun p hp => ⟨unpaired_joinSurrogates p.1, ih p hp⟩
  | _ => trivial

theorem joined_joined (j : Json) : j.joined.joined = j.joined :=
  joined_of_unpaired _ (unpaired_joined j)

section

variable {st : JsonStyle}

theorem arrTail_joined {xs : List Json} (h : ∀ x ∈ xs, render st x.joined = render st x) :
    arrTail st (xs.map Json.joined) = arrTail st xs := by
  induction xs with
  | nil => rfl
  | cons x xs ih =>
    obtain ⟨hx, hxs⟩ := List.forall_mem_cons.mp h
    rw [List.map_cons, arrTail, arrTail, hx, ih hxs]

variable (hst : st.ensureAscii = true)

include hst

theorem quote_joinSurrogates (s : Str) :
    quote st.ensureAscii (joinSurrogates s) = quote st.ensureAscii s := by
  rw [hst, quote, quote, flatMap_joinSurrogates]

theorem objTail_joined {kvs : List (Str × Json)}
    (h : ∀ p ∈ kvs, render st p.2.joined = render st p.2) :
    objTail st (kvs.map fun p => (joinSurrogates p.1, p.2.joined)) = objTail st kvs := by
  induction kvs with
  | nil => rfl
  | cons p kvs ih =>
    obtain ⟨hp, hkvs⟩ := List.forall_mem_cons.mp h
    rw [List.map_cons, objTail, objTail, hp, ih hkvs, quote_joinSurrogates hst]

/-- A tree is written as its pairs are. -/
theorem render_joined (j : Json) : render st j.joined = render st j := by
  induction j using Json.ind with
  | hstr s => exact quote_joinSurrogates hst s
  | harr xs ih =>
    rw [Json.joined, joinedElems_eq]
    cases xs with
    | nil => rfl
    | cons x xs =>
      obtain ⟨hx, hxs⟩ := List.forall_mem_cons.mp ih
      rw [List.map_cons, render, render, hx, arrTail_joined hxs]
  | hobj kvs ih =>
    rw [Json.joined, joinedMembers_eq]
    cases kvs with
    | nil => rfl
    | cons p kvs =>
      obtain ⟨hp, hkvs⟩ := List.forall_mem_cons.mp ih
      rw [List.map_cons, render, render, hp, objTail_joined hst hkvs, quote_joinSurrogates hst]
  | _ => rfl

/-- **A tree is read with its pairs joined.** -/
theorem parse_render_joined (j : Json) : parse (render st j) = some j.joined := by
  have h : parse (render st j.joined ++ []) = some j.joined :=
    parse_render_append st (fun _ => unpaired_joined j) (by simp)
  rwa [List.append_nil, render_joined hst] at h

/-- **The text of a tree determines it up to its pairs.** -/
theorem render_eq_iff {a b : Json} : render st a = render st b ↔ a.joined = b.joined := by
  constructor
  · intro h
    have ha := parse_render_joined hst a
    rw [h, parse_render_joined hst b] at ha
    exact (Option.some.inj ha).symm
  · intro h
    rw [← render_joined hst a, h, render_joined hst b]

end

/-! ## Reload -/

section

variable (S : KeySort)

/-- What is read from the text that `v` is written as, in ASCII and unsorted. -/
def reloadJoined (v : PyVal) : PyVal := ofJson (toJson S false v).joined

/-- In every dict of the value, the keys in sorted order have strictly increasing texts once the
pairs are joined. -/
def StableJoined (v : PyVal) : Prop := KeysIncreasing (toJson S true v).joined

mutual

/-- The value with its keys as texts and all pairs joined. -/
def PyVal.asText : PyVal → PyVal
  | .str s => .str (joinSurrogates s)
  | .list xs => .list (asTextElems xs)
  | .tuple xs => .tuple (asTextElems xs)
  | .dict items => .dict (asTextItems items)
  | v => v

def asTextElems : List PyVal → List PyVal
  | [] => []
  | x :: xs => x.asText :: asTextElems xs

def asTextItems : List (PyKey × PyVal) → List (PyKey × PyVal)
  | [] => []
  | (k, v) :: items => (.str (joinSurrogates (keyText k)), v.asText) :: asTextItems items

end

@[simp] theorem asTextElems_eq : ∀ xs, asTextElems xs = xs.map PyVal.asText
  | [] => rfl
  | x :: xs => by rw [asTextElems, asTextElems_eq xs, List.map_cons]

@[simp] theorem asTextItems_eq :
    ∀ items, asTextItems items = items.map fun p =>
    (PyKey.str (joinSurrogates (keyText p.1)), p.2.asText)
  | [] => rfl
  | (k, v) :: items => by rw [asTextItems, asTextItems_eq items, List.map_cons]

theorem toJson_asText (v : PyVal) : toJson S false v.asText = (toJson S false v).joined := by
  induction v using PyVal.ind with
  | hlist xs ih | htuple xs ih =>
    simp only [PyVal.asText, asTextElems_eq, toJson, toJsonElems_eq, Json.joined, joinedElems_eq,
      List.map_map, Json.arr.injEq]
    exact List.map_congr_left ih
  | hdict items ih =>
    simp only [PyVal.asText, asTextItems_eq, toJson, toJsonItems_eq, Json.joined, joinedMembers_eq,
      List.map_map, Bool.false_eq_true, if_false, Json.obj.injEq]
    exact List.map_congr_left fun p hp => by simp [keyText, ih p hp]
  | _ => rfl

/-- Where the joined keys are increasing, sorting by them changes no order. -/
theorem toJson_asText_of_stable (v : PyVal) (h : StableJoined S v) :
    toJson S true v.asText = (toJson S true v).joined := by
  induction v using PyVal.ind with
  | hlist xs ih | htuple xs ih =>
    simp only [StableJoined, toJson, toJsonElems_eq, Json.joined, joinedElems_eq, KeysIncreasing,
      elemsIncreasing_iff, List.forall_mem_map] at h
    simp only [PyVal.asText, asTextElems_eq, toJson, toJsonElems_eq, Json.joined, joinedElems_eq,
      List.map_map, Json.arr.injEq]
    exact List.map_congr_left fun x hx => ih x hx (h x hx)
  | hdict items ih =>
    set ts := items.map fun p => (p.1, toJson S true p.2) with hts
    have htree : (toJson S true (.dict items)).joined
        = .obj ((S.sort ts).map fun p => (joinSurrogates (keyText p.1), p.2.joined)) := by
      simp only [toJson, toJsonItems_eq, ← hts, if_true, Json.joined, joinedMembers_eq,
        List.map_map, Function.comp_def]
    rw [StableJoined, htree, KeysIncreasing, membersIncreasing_iff] at h
    obtain ⟨hpw, hvals⟩ := h
    have hitems : ∀ p ∈ items, toJson S true p.2.asText = (toJson S true p.2).joined := by
      intro p hp
      have hmem : (p.1, toJson S true p.2) ∈ S.sort ts :=
        (S.perm ts).mem_iff.mpr (List.mem_map.mpr ⟨p, hp, rfl⟩)
      exact ih p hp (hvals _ (List.mem_map.mpr ⟨_, hmem, rfl⟩))
    have hchildren : (items.map fun p => (PyKey.str (joinSurrogates (keyText p.1)), p.2.asText)).map
        (fun p => (p.1, toJson S true p.2))
          = ts.map fun p => (PyKey.str (joinSurrogates (keyText p.1)), p.2.joined) := by
      simp only [hts, List.map_map, Function.comp_def]
      exact List.map_congr_left fun p hp => by rw [hitems p hp]
    have hpw : ((S.sort ts).map fun p =>
      (PyKey.str (joinSurrogates (keyText p.1)), p.2.joined)).Pairwise
        fun a b => keyText a.1 < keyText b.1 := by
      simpa [List.pairwise_map, keyText] using hpw
    have hstr : ∀ p ∈ ts.map (fun p => (PyKey.str (joinSurrogates (keyText p.1)), p.2.joined)),
        p.1.isStr = true := by
      intro p hp
      obtain ⟨q, _, rfl⟩ := List.mem_map.mp hp
      rfl
    have hsort := sort_eq_of_perm S hstr ((S.perm ts).symm.map _) hpw
    rw [htree, PyVal.asText, asTextItems_eq, toJson, toJsonItems_eq, hchildren, if_pos rfl, hsort]
    simp [List.map_map, Function.comp_def, keyText]
  | _ => rfl

/-- What is read without pairs is written without pairs. -/
theorem unpaired_reload (j : Json) (h : j.Unpaired) : (toJson S true (ofJson j)).Unpaired := by
  induction j using Json.ind with
  | harr xs ih =>
    simp only [Json.Unpaired, unpairedElems_iff] at h
    simp only [ofJson, ofJsonElems_eq, toJson, toJsonElems_eq, Json.Unpaired, unpairedElems_iff,
      List.map_map, List.forall_mem_map, Function.comp_apply]
    exact fun x hx => ih x hx (h x hx)
  | hobj kvs ih =>
    simp only [Json.Unpaired, unpairedMembers_iff] at h
    rw [ofJson, ofJsonMembers_eq]
    refine unpaired_dict fun p hp => ?_
    obtain ⟨q, hq, rfl⟩ := mem_dictOfPairs p hp
    obtain ⟨kv, hkv, rfl⟩ := List.mem_map.mp hq
    exact ⟨(h kv hkv).1, ih kv hkv (h kv hkv).2⟩
  | _ => exact h

/-- **A value that was written and read is written as before exactly if it is stable.** -/
theorem reloadJoined_iff (v : PyVal) :
    (toJson S true (reloadJoined S v)).joined = (toJson S true v).joined ↔ StableJoined S v := by
  constructor
  · intro h
    have hjoined := joined_of_unpaired _ (unpaired_reload S _ (unpaired_joined (toJson S false v)))
    rw [StableJoined, ← h, reloadJoined, hjoined]
    exact keysIncreasing_reload S _
  · intro h
    have htext := toJson_asText_of_stable S v h
    have hstable : Stable S v.asText := by
      rw [Stable, htext]
      exact h
    rw [reloadJoined, ← toJson_asText, reload_of_stable S v.asText hstable, htext, joined_joined]

end

end Py
