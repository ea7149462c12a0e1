import Msb.Infra.PyValue

/-!
# Writing what was read

`toJson S true` is the tree of a value under `sort_keys`. Reading a text and writing it again
with `sort_keys` always gives a tree whose keys are increasing at every object
(`keysIncreasing_reload`), and gives the same tree if and only if it already was one
(`reload_eq_iff`).

* `reload_eq_iff` — a value survives the reload exactly when its sorted key texts are increasing
* `same_of_toJson_eq` — two values that were read and have one tree are the same value
-/

namespace Py

variable (S : KeySort)

/-! ## Increasing keys -/

mutual

/-- At every object the key texts are strictly increasing. -/
def KeysIncreasing : Json → Prop
  | .arr xs => ElemsIncreasing xs
  | .obj kvs => (kvs.Pairwise fun a b => a.1 < b.1) ∧ MembersIncreasing kvs
  | _ => True

def ElemsIncreasing : List Json → Prop
  | [] => True
  | x :: xs => KeysIncreasing x ∧ ElemsIncreasing xs

def MembersIncreasing : List (Str × Json) → Prop
  | [] => True
  | (_, v) :: kvs => KeysIncreasing v ∧ MembersIncreasing kvs

end

@[simp] theorem elemsIncreasing_iff : ∀ xs, ElemsIncreasing xs ↔ ∀ x ∈ xs, KeysIncreasing x
  | [] => by simp [ElemsIncreasing]
  | x :: xs => by rw [ElemsIncreasing, elemsIncreasing_iff xs, List.forall_mem_cons]

@[simp] theorem membersIncreasing_iff :
    ∀ kvs, MembersIncreasing kvs ↔ ∀ p ∈ kvs, KeysIncreasing p.2
  | [] => by simp [MembersIncreasing]
  | (k, v) :: kvs => by rw [MembersIncreasing, membersIncreasing_iff kvs, List.forall_mem_cons]

/-- In every dict of the value, the keys in sorted order have strictly increasing texts. -/
def Stable (v : PyVal) : Prop := KeysIncreasing (toJson S true v)

/-! ## Sorting string keys -/

theorem lt_str {a b : Str} : (PyKey.str a).lt (.str b) = true ↔ a < b := by
  simp [PyKey.lt]

variable {k : PyKey} {items xs ys : List (PyKey × PyVal)}

theorem exists_str (h : k.isStr = true) : ∃ s, k = .str s := by
  cases k <;> first | exact ⟨_, rfl⟩ | cases h

/-- Distinct string keys are sorted by their text. -/
theorem sort_str_pairwise {ts : List (PyKey × Json)} (hstr : ∀ p ∈ ts, p.1.isStr = true)
    (hnd : (ts.map Prod.fst).Nodup) :
    (S.sort ts).Pairwise fun a b => keyText a.1 < keyText b.1 := by
  have hsorted := S.sorted ts (by
    refine (List.pairwise_map.mp hnd).imp_of_mem ?_
    intro a b ha hb hne
    obtain ⟨s, hs⟩ := exists_str (hstr a ha)
    obtain ⟨t, ht⟩ := exists_str (hstr b hb)
    rw [hs, ht] at hne ⊢
    rw [lt_str, lt_str]
    exact lt_or_gt_of_ne fun e => hne (by rw [e]))
  refine hsorted.imp_of_mem ?_
  intro a b ha hb hlt
  obtain ⟨s, hs⟩ := exists_str (hstr a ((S.perm ts).mem_iff.mp ha))
  obtain ⟨t, ht⟩ := exists_str (hstr b ((S.perm ts).mem_iff.mp hb))
  rw [hs, ht] at hlt ⊢
  exact lt_str.mp hlt

/-- Only one order of the items has increasing key texts. -/
theorem sort_eq_of_perm {ts us : List (PyKey × Json)} (hstr : ∀ p ∈ ts, p.1.isStr = true)
    (hperm : ts.Perm us) (hus : us.Pairwise fun a b => keyText a.1 < keyText b.1) :
    S.sort ts = us := by
  have hnd : (ts.map Prod.fst).Nodup := by
    refine (hperm.map Prod.fst).nodup_iff.mpr (List.pairwise_map.mpr (hus.imp ?_))
    intro a b hlt heq
    rw [heq] at hlt
    exact lt_irrefl _ hlt
  refine List.Perm.eq_of_pairwise ?_ (sort_str_pairwise S hstr hnd) hus ((S.perm ts).trans hperm)
  intro a b _ _ hab hba
  exact absurd hba (lt_asymm hab)

/-- A dict with distinct string keys and stable values is stable. -/
theorem stable_dict (hstr : ∀ p ∈ items, p.1.isStr = true) (hnd : (items.map Prod.fst).Nodup)
    (h : ∀ p ∈ items, Stable S p.2) : Stable S (.dict items) := by
  simp only [Stable, toJson, toJsonItems_eq, if_true, KeysIncreasing, membersIncreasing_iff]
  constructor
  · refine List.pairwise_map.mpr (sort_str_pairwise S ?_ ?_)
    · exact List.forall_mem_map.mpr hstr
    · simpa [List.map_map, Function.comp_def] using hnd
  · intro u hu
    obtain ⟨t, ht, rfl⟩ := List.mem_map.mp hu
    obtain ⟨p, hp, rfl⟩ := List.mem_map.mp ((S.perm _).mem_iff.mp ht)
    exact h p hp

/-! ## The reload -/

/-- The items of the dict that an object reads as, as trees again. -/
theorem toJson_ofJson_obj {kvs : List (Str × Json)} (hnd : (kvs.map Prod.fst).Nodup) :
    toJson S true (ofJson (.obj kvs))
      = .obj ((S.sort (kvs.map fun p => (PyKey.str p.1, toJson S true (ofJson p.2)))).map
          fun p => (keyText p.1, p.2)) := by
  have hkeys : ((kvs.map fun p => (p.1, ofJson p.2)).map Prod.fst).Nodup := by
    simpa [List.map_map, Function.comp_def] using hnd
  have hd := dictOfPairs_of_nodup hkeys
  simp only [ofJson, ofJsonMembers_eq, hd, toJson, toJsonItems_eq, List.map_map, Function.comp_def,
    if_true]

/-- **A text that was read is written with increasing keys.** -/
theorem keysIncreasing_reload (j : Json) : KeysIncreasing (toJson S true (ofJson j)) := by
  induction j using Json.ind with
  | hnull => trivial
  | hbool b => trivial
  | hint i => trivial
  | hfloat f => trivial
  | hstr s => trivial
  | harr xs ih =>
    simp only [ofJson, ofJsonElems_eq, toJson, toJsonElems_eq, KeysIncreasing, elemsIncreasing_iff,
      List.map_map, List.mem_map, Function.comp_apply]
    rintro _ ⟨x, hx, rfl⟩
    exact ih x hx
  | hobj kvs ih =>
    have hdict : StrDict (dictOfPairs (kvs.map fun p => (p.1, ofJson p.2))) := strDict_dictOfPairs _
    rw [ofJson, ofJsonMembers_eq]
    refine stable_dict S hdict.str hdict.nodup fun p hp => ?_
    obtain ⟨q, hq, rfl⟩ := mem_dictOfPairs p hp
    obtain ⟨kv, hkv, rfl⟩ := List.mem_map.mp hq
    exact ih kv hkv

/-- **A tree with increasing keys is what its value is written as.** -/
theorem toJson_ofJson (j : Json) (h : KeysIncreasing j) : toJson S true (ofJson j) = j := by
  induction j using Json.ind with
  | hnull => rfl
  | hbool b => rfl
  | hint i => rfl
  | hfloat f => rfl
  | hstr s => rfl
  | harr xs ih =>
    simp only [KeysIncreasing, elemsIncreasing_iff] at h
    simp only [ofJson, ofJsonElems_eq, toJson, toJsonElems_eq, List.map_map, Json.arr.injEq]
    conv_rhs => rw [← List.map_id xs]
    exact List.map_congr_left fun x hx => ih x hx (h x hx)
  | hobj kvs ih =>
    simp only [KeysIncreasing, membersIncreasing_iff] at h
    obtain ⟨hpw, hvals⟩ := h
    have hnd : (kvs.map Prod.fst).Nodup := List.pairwise_map.mpr (hpw.imp fun hlt => ne_of_lt hlt)
    have hmap : kvs.map (fun p => (PyKey.str p.1, toJson S true (ofJson p.2)))
        = kvs.map fun p => (PyKey.str p.1, p.2) :=
      List.map_congr_left fun p hp => by rw [ih p hp (hvals p hp)]
    have hsorted : (kvs.map fun p => (PyKey.str p.1, p.2)).Pairwise
        fun a b => keyText a.1 < keyText b.1 := List.pairwise_map.mpr hpw
    have hstr : ∀ p ∈ kvs.map (fun p => (PyKey.str p.1, p.2)), p.1.isStr = true := by
      rw [List.forall_mem_map]
      exact fun _ _ => rfl
    rw [toJson_ofJson_obj S hnd, hmap, sort_eq_of_perm S hstr (.refl _) hsorted, List.map_map]
    conv_rhs => rw [← List.map_id kvs]
    rfl

/-- **A stable value is written as before.** -/
theorem reload_of_stable (v : PyVal) (h : Stable S v) :
    toJson S true (ofJson (toJson S false v)) = toJson S true v := by
  induction v using PyVal.ind with
  | hnone => rfl
  | hbool b => rfl
  | hint i => rfl
  | hfloat f => rfl
  | hstr s => rfl
  | hlist xs ih =>
    simp only [Stable, toJson, toJsonElems_eq, KeysIncreasing, elemsIncreasing_iff,
      List.forall_mem_map] at h
    simp only [toJson, toJsonElems_eq, ofJson, ofJsonElems_eq, List.map_map, Function.comp_def,
      Json.arr.injEq]
    exact List.map_congr_left fun x hx => ih x hx (h x hx)
  | htuple xs ih =>
    simp only [Stable, toJson, toJsonElems_eq, KeysIncreasing, elemsIncreasing_iff,
      List.forall_mem_map] at h
    simp only [toJson, toJsonElems_eq, ofJson, ofJsonElems_eq, List.map_map, Function.comp_def,
      Json.arr.injEq]
    exact List.map_congr_left fun x hx => ih x hx (h x hx)
  | hdict items ih =>
    set ts := items.map fun p => (p.1, toJson S true p.2) with hts
    have htree : toJson S true (.dict items) =
        .obj ((S.sort ts).map fun p => (keyText p.1, p.2)) := by
      simp only [toJson, toJsonItems_eq, ← hts, if_true]
    rw [Stable, htree, KeysIncreasing, membersIncreasing_iff] at h
    obtain ⟨hpw, hvals⟩ := h
    have hpw : (S.sort ts).Pairwise fun a b => keyText a.1 < keyText b.1 := by
      simpa [List.pairwise_map] using hpw
    -- sorting keeps the items, so each value is stable
    have hstable : ∀ p ∈ items, Stable S p.2 := by
      intro p hp
      have hmem : (p.1, toJson S true p.2) ∈ S.sort ts :=
        (S.perm ts).mem_iff.mpr (List.mem_map.mpr ⟨p, hp, rfl⟩)
      exact hvals _ (List.mem_map.mpr ⟨_, hmem, rfl⟩)
    have hnd : ((items.map fun p => (keyText p.1, toJson S false p.2)).map Prod.fst).Nodup := by
      have h1 : ((S.sort ts).map fun p => keyText p.1).Nodup :=
        List.pairwise_map.mpr (hpw.imp fun hlt => ne_of_lt hlt)
      have h2 := ((S.perm ts).map fun p => keyText p.1).nodup_iff.mp h1
      simpa [hts, List.map_map, Function.comp_def] using h2
    have hfalse : toJson S false (.dict items)
        = .obj (items.map fun p => (keyText p.1, toJson S false p.2)) := by
      simp [toJson, List.map_map, Function.comp_def]
    -- the keys of the tree that is read are texts in order already
    have hus : ((S.sort ts).map fun p => (PyKey.str (keyText p.1), p.2)).Pairwise
        fun a b => keyText a.1 < keyText b.1 := List.pairwise_map.mpr (by simpa [keyText] using hpw)
    have hchildren : (items.map fun p => (keyText p.1, toJson S false p.2)).map
        (fun p => (PyKey.str p.1, toJson S true (ofJson p.2)))
          = ts.map fun p => (PyKey.str (keyText p.1), p.2) := by
      simp only [hts, List.map_map, Function.comp_def]
      exact List.map_congr_left fun p hp => by rw [ih p hp (hstable p hp)]
    have hstr : ∀ p ∈ ts.map (fun p => (PyKey.str (keyText p.1), p.2)), p.1.isStr = true := by
      intro p hp
      obtain ⟨q, _, rfl⟩ := List.mem_map.mp hp
      rfl
    rw [hfalse, toJson_ofJson_obj S hnd, hchildren, htree,
      sort_eq_of_perm S hstr ((S.perm ts).symm.map _) hus]
    simp [List.map_map, Function.comp_def, keyText]

/-- **The reload gives the same tree exactly on the stable values.** -/
theorem reload_eq_iff (v : PyVal) :
    toJson S true (ofJson (toJson S false v)) = toJson S true v ↔ Stable S v := by
  constructor
  · intro h
    rw [Stable, ← h]
    exact keysIncreasing_reload S _
  · exact reload_of_stable S v

/-! ## The value that is read -/

/-- What is read from the text that `v` is written as under `sort_keys`. -/
def reload (v : PyVal) : PyVal := ofJson (toJson S true v)

/-- What was read is written as before. -/
theorem toJson_reload {v : PyVal} (h : Stable S v) : toJson S true (reload S v) = toJson S true v :=
  toJson_ofJson S _ h

/-- A key is found at the same place in every order of the items. -/
theorem find_key_perm {α : Type*} {l m : List (PyKey × α)} (hperm : l.Perm m)
    (hnd : (l.map Prod.fst).Nodup) (k : PyKey) :
    (l.find? fun p => p.1 = k) = m.find? fun p => p.1 = k := by
  induction hperm with
  | nil => rfl
  | cons p _ ih =>
    rw [List.find?_cons, List.find?_cons, ih (List.nodup_cons.mp hnd).2]
  | swap p q l =>
    have hne : p.1 ≠ q.1 := by
      intro h
      simp [h] at hnd
    by_cases hp : p.1 = k
    · have hq : q.1 ≠ k := fun hq => hne (hp.trans hq.symm)
      simp [hp, hq]
    · simp [List.find?_cons, hp]
  | trans hlm _ ih₁ ih₂ =>
    exact (ih₁ hnd).trans (ih₂ ((hlm.map Prod.fst).nodup_iff.mp hnd))

/-- **The items of a dict that was read are the items of the dict, read one by one.** -/
theorem reload_dict (hd : StrDict items) :
    ∃ items', reload S (.dict items) = .dict items' ∧ StrDict items' ∧
      items'.Perm (items.map fun p => (p.1, reload S p.2)) := by
  have hkeys : ∀ p ∈ S.sort (items.map fun p => (p.1, toJson S true p.2)), p.1.isStr = true := by
    intro p hp
    obtain ⟨q, hq, rfl⟩ := List.mem_map.mp ((S.perm _).mem_iff.mp hp)
    exact hd.str q hq
  have hnd : ((items.map fun p => (p.1, toJson S true p.2)).map Prod.fst).Nodup := by
    simpa [List.map_map, Function.comp_def] using hd.nodup
  have hstr : ∀ p ∈ items.map (fun p => (p.1, toJson S true p.2)), p.1.isStr = true :=
    List.forall_mem_map.mpr hd.str
  have hpw := sort_str_pairwise S hstr hnd
  have htexts : (((S.sort (items.map fun p => (p.1, toJson S true p.2))).map
      fun p => (keyText p.1, ofJson p.2)).map Prod.fst).Nodup := by
    rw [List.map_map]
    exact List.pairwise_map.mpr (hpw.imp fun hlt => ne_of_lt hlt)
  refine ⟨dictOfPairs ((S.sort (items.map fun p => (p.1, toJson S true p.2))).map
    fun p => (keyText p.1, ofJson p.2)), ?_, strDict_dictOfPairs _, ?_⟩
  · simp only [reload, toJson, toJsonItems_eq, if_true, ofJson, ofJsonMembers_eq, List.map_map,
      Function.comp_def]
  · rw [dictOfPairs_of_nodup htexts, List.map_map]
    have hsame : (S.sort (items.map fun p => (p.1, toJson S true p.2))).map
        ((fun p : Str × PyVal => (PyKey.str p.1, p.2)) ∘ fun p => (keyText p.1, ofJson p.2))
        = (S.sort (items.map fun p => (p.1, toJson S true p.2))).map fun p =>
            (p.1, ofJson p.2) := by
      refine List.map_congr_left fun p hp => ?_
      obtain ⟨s, hs⟩ := exists_str (hkeys p hp)
      simp [hs, keyText]
    rw [hsame]
    have hperm := (S.perm (items.map fun p => (p.1, toJson S true p.2))).map
      fun p => (p.1, ofJson p.2)
    rwa [List.map_map] at hperm

/-- **Neither the order of the items nor reading their values changes what is written.** -/
theorem toJson_of_perm_reload {items' : List (PyKey × PyVal)} (hd : StrDict items)
    (hstable : ∀ p ∈ items, Stable S p.2)
    (hperm : items'.Perm (items.map fun p => (p.1, reload S p.2))) :
    toJson S true (.dict items') = toJson S true (.dict items) := by
  have htrees : (items.map fun p => (p.1, reload S p.2)).map (fun p => (p.1, toJson S true p.2))
      = items.map fun p => (p.1, toJson S true p.2) := by
    rw [List.map_map]
    exact List.map_congr_left fun p hp => by
      simp only [Function.comp_apply, toJson_reload S (hstable p hp)]
  have hts : (items'.map fun p => (p.1, toJson S true p.2)).Perm
      (items.map fun p => (p.1, toJson S true p.2)) := by
    rw [← htrees]
    exact hperm.map _
  have hstr : ∀ p ∈ items.map (fun p => (p.1, toJson S true p.2)), p.1.isStr = true :=
    List.forall_mem_map.mpr hd.str
  have hnd : ((items.map fun p => (p.1, toJson S true p.2)).map Prod.fst).Nodup := by
    simpa [List.map_map, Function.comp_def] using hd.nodup
  have hsort : S.sort (items'.map fun p => (p.1, toJson S true p.2))
      = S.sort (items.map fun p => (p.1, toJson S true p.2)) := by
    refine sort_eq_of_perm S (fun p hp => hstr p (hts.mem_iff.mp hp)) ?_
      (sort_str_pairwise S hstr hnd)
    exact hts.trans (S.perm _).symm
  simp only [toJson, toJsonItems_eq, if_true, hsort]

/-! ## String keys -/

mutual

/-- Every dict in the value has distinct string keys. -/
def strKeyed : PyVal → Bool
  | .list xs | .tuple xs => strKeyedElems xs
  | .dict items =>
    decide (items.map Prod.fst).Nodup && items.all (fun p => p.1.isStr) && strKeyedItems items
  | _ => true

def strKeyedElems : List PyVal → Bool
  | [] => true
  | x :: xs => strKeyed x && strKeyedElems xs

def strKeyedItems : List (PyKey × PyVal) → Bool
  | [] => true
  | (_, v) :: items => strKeyed v && strKeyedItems items

end

@[simp] theorem strKeyedElems_eq : ∀ xs, strKeyedElems xs = xs.all strKeyed
  | [] => rfl
  | x :: xs => by rw [strKeyedElems, strKeyedElems_eq xs, List.all_cons]

@[simp] theorem strKeyedItems_eq : ∀ items, strKeyedItems items = items.all fun p => strKeyed p.2
  | [] => rfl
  | (k, v) :: items => by rw [strKeyedItems, strKeyedItems_eq items, List.all_cons]

/-- **A value with string keys is stable.** -/
theorem stable_of_strKeyed (v : PyVal) (h : strKeyed v = true) : Stable S v := by
  induction v using PyVal.ind with
  | hlist xs ih =>
    simp only [strKeyed, strKeyedElems_eq, List.all_eq_true] at h
    simp only [Stable, toJson, toJsonElems_eq, KeysIncreasing, elemsIncreasing_iff,
      List.forall_mem_map]
    exact fun x hx => ih x hx (h x hx)
  | htuple xs ih =>
    simp only [strKeyed, strKeyedElems_eq, List.all_eq_true] at h
    simp only [Stable, toJson, toJsonElems_eq, KeysIncreasing, elemsIncreasing_iff,
      List.forall_mem_map]
    exact fun x hx => ih x hx (h x hx)
  | hdict items ih =>
    simp only [strKeyed, strKeyedItems_eq, Bool.and_eq_true, decide_eq_true_eq,
      List.all_eq_true] at h
    exact stable_dict S h.1.2 h.1.1 fun p hp => ih p hp (h.2 p hp)
  | _ => trivial

/-! ## Values that were read -/

mutual

/-- Equal values: the items of a dict may come in another order. -/
inductive Same : PyVal → PyVal → Prop where
  | none : Same .none .none
  | bool (b : Bool) : Same (.bool b) (.bool b)
  | int (i : Int) : Same (.int i) (.int i)
  | float (f : PyFloat) : Same (.float f) (.float f)
  | str (s : Str) : Same (.str s) (.str s)
  | list {xs ys : List PyVal} : SameElems xs ys → Same (.list xs) (.list ys)
  | dict {xs ys zs : List (PyKey × PyVal)} : SameItems xs ys → ys.Perm zs →
    Same (.dict xs) (.dict zs)

inductive SameElems : List PyVal → List PyVal → Prop where
  | nil : SameElems [] []
  | cons {x y : PyVal} {xs ys : List PyVal} : Same x y → SameElems xs ys →
    SameElems (x :: xs) (y :: ys)

inductive SameItems : List (PyKey × PyVal) → List (PyKey × PyVal) → Prop where
  | nil : SameItems [] []
  | cons {k : PyKey} {x y : PyVal} {xs ys : List (PyKey × PyVal)} : Same x y → SameItems xs ys →
    SameItems ((k, x) :: xs) ((k, y) :: ys)

end

theorem sameItems_of_forall₂ (h : List.Forall₂ (fun a b => a.1 = b.1 ∧ Same a.2 b.2) xs ys) :
    SameItems xs ys := by
  induction h with
  | nil => exact .nil
  | @cons a b xs ys hab _ ih =>
    obtain ⟨k, x⟩ := a
    obtain ⟨k', y⟩ := b
    obtain ⟨rfl, hxy⟩ := hab
    exact .cons hxy ih

theorem sameElems_of_forall₂ {xs ys : List PyVal} (h : List.Forall₂ Same xs ys) :
    SameElems xs ys := by
  induction h with
  | nil => exact .nil
  | cons hxy _ ih => exact .cons hxy ih

mutual

/-- The values `loads` returns: no tuple, and distinct string keys in every dict. -/
inductive Parsed : PyVal → Prop where
  | none : Parsed .none
  | bool (b : Bool) : Parsed (.bool b)
  | int (i : Int) : Parsed (.int i)
  | float (f : PyFloat) : Parsed (.float f)
  | str (s : Str) : Parsed (.str s)
  | list {xs : List PyVal} : ParsedElems xs → Parsed (.list xs)
  | dict {items : List (PyKey × PyVal)} : StrDict items → ParsedItems items → Parsed (.dict items)

inductive ParsedElems : List PyVal → Prop where
  | nil : ParsedElems []
  | cons {x : PyVal} {xs : List PyVal} : Parsed x → ParsedElems xs → ParsedElems (x :: xs)

inductive ParsedItems : List (PyKey × PyVal) → Prop where
  | nil : ParsedItems []
  | cons {k : PyKey} {v : PyVal} {items : List (PyKey × PyVal)} : Parsed v → ParsedItems items →
    ParsedItems ((k, v) :: items)

end

theorem parsedElems_iff : ∀ {xs : List PyVal}, ParsedElems xs ↔ ∀ x ∈ xs, Parsed x
  | [] => ⟨fun _ => by simp, fun _ => .nil⟩
  | x :: xs => by
    rw [List.forall_mem_cons, ← @parsedElems_iff xs]
    exact ⟨fun | .cons hx hxs => ⟨hx, hxs⟩, fun h => .cons h.1 h.2⟩

theorem parsedItems_iff : ∀ {items : List (PyKey × PyVal)}, ParsedItems items ↔ ∀ p ∈ items,
    Parsed p.2
  | [] => ⟨fun _ => by simp, fun _ => .nil⟩
  | (k, v) :: items => by
    rw [List.forall_mem_cons, ← @parsedItems_iff items]
    exact ⟨fun | .cons hx hxs => ⟨hx, hxs⟩, fun h => .cons h.1 h.2⟩

theorem parsed_ofJson (j : Json) : Parsed (ofJson j) := by
  induction j using Json.ind with
  | hnull => exact .none
  | hbool b => exact .bool b
  | hint i => exact .int i
  | hfloat f => exact .float f
  | hstr s => exact .str s
  | harr xs ih =>
    rw [ofJson, ofJsonElems_eq]
    exact .list (parsedElems_iff.mpr (List.forall_mem_map.mpr ih))
  | hobj kvs ih =>
    rw [ofJson, ofJsonMembers_eq]
    refine .dict (strDict_dictOfPairs _) (parsedItems_iff.mpr ?_)
    intro p hp
    obtain ⟨q, hq, rfl⟩ := mem_dictOfPairs p hp
    obtain ⟨kv, hkv, rfl⟩ := List.mem_map.mp hq
    exact ih kv hkv

/-- A value that was read can always be sorted. -/
theorem sortable_of_parsed (v : PyVal) (h : Parsed v) : sortable v = true := by
  induction v using PyVal.ind with
  | hlist xs ih =>
    cases h with
    | list hxs =>
      rw [sortable, sortableElems_eq, List.all_eq_true]
      exact fun x hx => ih x hx (parsedElems_iff.mp hxs x hx)
  | htuple xs ih => cases h
  | hdict items ih =>
    cases h with
    | dict hd hitems =>
      rw [sortable, sortableItems_eq, Bool.and_eq_true, List.all_eq_true]
      refine ⟨?_, fun p hp => ih p hp (parsedItems_iff.mp hitems p hp)⟩
      have hall : (items.map Prod.fst).all PyKey.isStr = true := by
        rw [List.all_eq_true]
        intro k hk
        obtain ⟨p, hp, rfl⟩ := List.mem_map.mp hk
        exact hd.str p hp
      simp [comparable, hall]
  | _ => rfl

/-- Permuting either side of an item-wise relation. -/
theorem same_dict_of_perm {xs' ys' : List (PyKey × PyVal)} (hx : xs.Perm xs') (hy : ys'.Perm ys)
    (h : List.Forall₂ (fun a b => a.1 = b.1 ∧ Same a.2 b.2) xs' ys') :
    Same (.dict xs) (.dict ys) := by
  obtain ⟨zs, hxz, hzy⟩ := List.perm_comp_forall₂ hx h
  exact .dict (sameItems_of_forall₂ hxz) (hzy.trans hy)

theorem forall₂_of_sameItems : ∀ {ys : List (PyKey × PyVal)}, SameItems xs ys →
    List.Forall₂ (fun a b => a.1 = b.1 ∧ Same a.2 b.2) xs ys := by
  induction xs with
  | nil =>
    intro ys h
    cases h with
    | nil => exact .nil
  | cons p xs ih =>
    intro ys h
    cases h with
    | cons hxy hrest => exact .cons ⟨rfl, hxy⟩ (ih hrest)

/-- One more item on both sides. -/
theorem same_dict_cons {xs' ys' : List (PyKey × PyVal)} {v w : PyVal} (hx : xs.Perm ((k, v) :: xs'))
    (hy : ys.Perm ((k, w) :: ys')) (hvw : Same v w) (h : Same (.dict xs') (.dict ys')) :
    Same (.dict xs) (.dict ys) := by
  cases h with
  | dict hitems hperm =>
    exact same_dict_of_perm hx ((hperm.cons _).trans hy.symm)
      (.cons ⟨rfl, hvw⟩ (forall₂_of_sameItems hitems))

/-- A permutation of the images is the image of a permutation. -/
theorem exists_perm_of_map_perm {α β : Type*} {f : α → β} {l : List α} {m : List β}
    (h : (l.map f).Perm m) : ∃ l', l.Perm l' ∧ l'.map f = m := by
  have hcomp : Relation.Comp (· = List.map f ·) List.Perm m l := by
    rw [List.eq_map_comp_perm]
    exact h.symm
  obtain ⟨l', rfl, hperm⟩ := hcomp
  exact ⟨l', hperm.symm, rfl⟩

/-- The element-wise relation follows from one that holds of the members. -/
theorem forall₂_of_mem {α β : Type*} {R Q : α → β → Prop} {xs : List α} {ys : List β}
    (h : List.Forall₂ R xs ys) (hRQ : ∀ x ∈ xs, ∀ y ∈ ys, R x y → Q x y) :
    List.Forall₂ Q xs ys := by
  induction h with
  | nil => exact .nil
  | cons hxy _ ih =>
    refine .cons (hRQ _ List.mem_cons_self _ List.mem_cons_self hxy) (ih ?_)
    intro x hx y hy
    exact hRQ x (List.mem_cons_of_mem _ hx) y (List.mem_cons_of_mem _ hy)

theorem keyText_injective {j : PyKey} (hj : j.isStr = true) (hk : k.isStr = true)
    (h : keyText j = keyText k) : j = k := by
  obtain ⟨s, rfl⟩ := exists_str hj
  obtain ⟨t, rfl⟩ := exists_str hk
  exact congrArg PyKey.str h

/-- **Two values that were read and have one tree are the same value.** -/
theorem same_of_toJson_eq (p : PyVal) :
    ∀ q, Parsed p → Parsed q → toJson S true p = toJson S true q → Same p q := by
  induction p using PyVal.ind with
  | hnone => intro q _ hq h; cases hq <;> first | exact .none | cases h
  | hbool b => intro q _ hq h; cases hq <;> cases h; exact .bool b
  | hint i => intro q _ hq h; cases hq <;> cases h; exact .int i
  | hfloat f => intro q _ hq h; cases hq <;> cases h; exact .float f
  | hstr s => intro q _ hq h; cases hq <;> cases h; exact .str s
  | htuple xs ih => intro q hp; cases hp
  | hlist xs ih =>
    intro q hp hq h
    cases hp with
    | list hxs =>
    cases hq with
    | @list ys hys =>
      simp only [toJson, toJsonElems_eq, Json.arr.injEq] at h
      rw [← List.forall₂_eq_eq_eq, List.forall₂_map_left_iff, List.forall₂_map_right_iff] at h
      rw [parsedElems_iff] at hxs hys
      refine .list (sameElems_of_forall₂ (forall₂_of_mem h ?_))
      intro x hx y hy hxy
      exact ih x hx y (hxs x hx) (hys y hy) hxy
    | _ => simp [toJson] at h
  | hdict items ih =>
    intro q hp hq h
    cases hp with
    | dict hd hitems =>
    cases hq with
    | @dict items' hd' hitems' =>
      rw [parsedItems_iff] at hitems hitems'
      simp only [toJson, toJsonItems_eq, if_true, Json.obj.injEq] at h
      -- the sorted trees are the trees of a permutation of the items
      obtain ⟨xs, hxs, hxmap⟩ := exists_perm_of_map_perm
        (S.perm (items.map fun p => (p.1, toJson S true p.2))).symm
      obtain ⟨ys, hys, hymap⟩ := exists_perm_of_map_perm
        (S.perm (items'.map fun p => (p.1, toJson S true p.2))).symm
      rw [← hxmap, ← hymap, List.map_map, List.map_map, ← List.forall₂_eq_eq_eq,
        List.forall₂_map_left_iff, List.forall₂_map_right_iff] at h
      refine same_dict_of_perm hxs hys.symm (forall₂_of_mem h ?_)
      intro x hx y hy hxy
      have hx := hxs.mem_iff.mpr hx
      have hy := hys.mem_iff.mpr hy
      obtain ⟨hkey, hval⟩ := Prod.mk.inj hxy
      exact ⟨keyText_injective (hd.str x hx) (hd'.str y hy) hkey,
        ih x hx y.2 (hitems x hx) (hitems' y hy) hval⟩
    | _ => simp [toJson] at h

/-- A member of a dict has its like in a dict that is the same. -/
theorem same_of_mem {zs : List (PyKey × PyVal)} (h : Same (.dict xs) (.dict zs)) {v : PyVal}
    (hv : (k, v) ∈ xs) : ∃ w, (k, w) ∈ zs ∧ Same v w := by
  have hitems : ∀ {xs ys : List (PyKey × PyVal)}, SameItems xs ys → (k, v) ∈ xs → ∃ w, (k, w) ∈ ys ∧
      Same v w := by
    intro xs
    induction xs with
    | nil => intro ys _ hmem; cases hmem
    | cons p xs ih =>
      intro ys hsame hmem
      cases hsame with
      | cons hxy hrest =>
        rcases List.mem_cons.mp hmem with heq | hmem
        · obtain ⟨rfl, rfl⟩ := Prod.mk.inj heq
          exact ⟨_, List.mem_cons_self, hxy⟩
        · obtain ⟨w, hw, hvw⟩ := ih hrest hmem
          exact ⟨w, List.mem_cons_of_mem _ hw, hvw⟩
  cases h with
  | dict hsame hperm =>
    obtain ⟨w, hw, hvw⟩ := hitems hsame hv
    exact ⟨w, hperm.mem_iff.mp hw, hvw⟩

end Py
