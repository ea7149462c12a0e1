import Msb.Infra.JsonRoundtrip

/-!
# `json.dumps` and `json.loads`

The values that go into a JSON text and the values that come out of it are not the same: a text
has only string keys, and only lists. `dumps` coerces the other keys to text *after* it has
sorted the items by the original keys, `loads` builds dicts by the rule of Python (a key keeps
its first place and its last value). A value written, read and written again with `sort_keys`
therefore gives the same text only if sorting before and after the coercion agree.

* `dictOfPairs_of_nodup` — reading keeps the members of an object with distinct keys as they are
-/

namespace Py

/-! ## Values -/

/-- The keys `json.dumps` accepts. -/
inductive PyKey where
  | none
  | bool (b : Bool)
  | int (i : Int)
  | float (f : PyFloat)
  | str (s : Str)
  deriving DecidableEq

/-- The values `json.dumps` accepts. The items of a dict are in insertion order. -/
inductive PyVal where
  | none
  | bool (b : Bool)
  | int (i : Int)
  | float (f : PyFloat)
  | str (s : Str)
  | list (xs : List PyVal)
  | tuple (xs : List PyVal)
  | dict (items : List (PyKey × PyVal))

/-- Induction over values, with one hypothesis for each element. -/
theorem PyVal.ind {P : PyVal → Prop} (hnone : P .none) (hbool : ∀ b, P (.bool b))
    (hint : ∀ i, P (.int i)) (hfloat : ∀ f, P (.float f)) (hstr : ∀ s, P (.str s))
    (hlist : ∀ xs, (∀ x ∈ xs, P x) → P (.list xs))
    (htuple : ∀ xs, (∀ x ∈ xs, P x) → P (.tuple xs))
    (hdict : ∀ items, (∀ p ∈ items, P p.2) → P (.dict items)) (v : PyVal) : P v :=
  @PyVal.rec P (fun xs => ∀ x ∈ xs, P x) (fun items => ∀ p ∈ items, P p.2) (fun p => P p.2)
    hnone hbool hint hfloat hstr hlist htuple hdict
    (fun _ h => absurd h List.not_mem_nil)
    (fun _ _ hx hxs => List.forall_mem_cons.mpr ⟨hx, hxs⟩)
    (fun _ h => absurd h List.not_mem_nil)
    (fun _ _ hp hps => List.forall_mem_cons.mpr ⟨hp, hps⟩)
    (fun _ _ h => h) v

/-! ## Keys -/

/-- The text a key is written as. -/
def keyText : PyKey → Str
  | .none => lit "null"
  | .bool true => lit "true"
  | .bool false => lit "false"
  | .int i => (intLit i).text
  | .float f => floatText f
  | .str s => s

/-- The number a key compares as. `nan` compares with nothing. -/
def keyNum : PyKey → Option (WithBot (WithTop ℚ))
  | .bool b => some ((if b then 1 else 0 : ℚ) : WithTop ℚ)
  | .int i => some ((i : ℚ) : WithTop ℚ)
  | .float (.finite x) => some (((if x.neg then -x.abs else x.abs) : ℚ) : WithTop ℚ)
  | .float (.inf true) => some ⊥
  | .float (.inf false) => some ((⊤ : WithTop ℚ) : WithBot (WithTop ℚ))
  | _ => none

/-- Python's `<` on keys, where it does not raise. -/
def PyKey.lt : PyKey → PyKey → Bool
  | .str a, .str b => a < b
  | a, b =>
    match keyNum a, keyNum b with
    | some x, some y => x < y
    | _, _ => false

def PyKey.isStr : PyKey → Bool
  | .str _ => true
  | _ => false

def PyKey.isNumber : PyKey → Bool
  | .bool _ | .int _ | .float _ => true
  | _ => false

/-- `sorted` raises on keys of mixed type, and on `None` among others. -/
def comparable (keys : List PyKey) : Bool :=
  keys.length ≤ 1 || keys.all PyKey.isStr || keys.all PyKey.isNumber

/-- `list.sort` on dict items. Where `<` does not order the keys (a `nan` among them) the
language leaves the result open, so all that is known there is that it is a permutation. -/
structure KeySort where
  sort : List (PyKey × Json) → List (PyKey × Json)
  perm : ∀ l, (sort l).Perm l
  sorted : ∀ l, (l.Pairwise fun a b => a.1.lt b.1 = true ∨ b.1.lt a.1 = true) →
    (sort l).Pairwise fun a b => a.1.lt b.1 = true

/-! ## A sort -/

theorem PyKey.lt_eq_true {a b : PyKey} : a.lt b = true ↔
    (∃ s t, a = .str s ∧ b = .str t ∧ s < t) ∨
      ∃ x y, keyNum a = some x ∧ keyNum b = some y ∧ x < y := by
  unfold PyKey.lt
  split
  · next s t => simp [keyNum]
  · next hne =>
    have hstr : ¬∃ s t, a = .str s ∧ b = .str t ∧ s < t := by
      rintro ⟨s, t, rfl, rfl, -⟩
      exact hne s t rfl rfl
    simp only [hstr, false_or]
    split
    · next x y hx hy => simp [hx, hy]
    · next hxy =>
      simp only [Bool.false_eq_true, false_iff]
      rintro ⟨x, y, hx, hy, -⟩
      exact hxy x y hx hy

theorem PyKey.lt_trans {a b c : PyKey} (hab : a.lt b = true) (hbc : b.lt c = true) :
    a.lt c = true := by
  rw [PyKey.lt_eq_true] at *
  rcases hab with ⟨s, t, rfl, rfl, hst⟩ | ⟨x, y, hx, hy, hxy⟩
  · rcases hbc with ⟨t', u, ht, rfl, htu⟩ | ⟨y, z, hy, hz, hyz⟩
    · cases ht
      exact Or.inl ⟨s, u, rfl, rfl, hst.trans htu⟩
    · cases hy
  · rcases hbc with ⟨t, u, rfl, rfl, -⟩ | ⟨y', z, hy', hz, hyz⟩
    · cases hy
    · rw [hy, Option.some.injEq] at hy'
      subst hy'
      exact Or.inr ⟨x, z, hx, hz, hxy.trans hyz⟩

def insertItem (p : PyKey × Json) : List (PyKey × Json) → List (PyKey × Json)
  | [] => [p]
  | q :: l => if q.1.lt p.1 then q :: insertItem p l else p :: q :: l

theorem insertItem_perm (p : PyKey × Json) : ∀ l, (insertItem p l).Perm (p :: l)
  | [] => .refl _
  | q :: l => by
    rw [insertItem]
    split
    · exact ((insertItem_perm p l).cons q).trans (.swap p q l)
    · exact .refl _

theorem insertItem_sorted {p : PyKey × Json} : ∀ {l : List (PyKey × Json)},
    (l.Pairwise fun a b => a.1.lt b.1 = true) →
    (∀ q ∈ l, p.1.lt q.1 = true ∨ q.1.lt p.1 = true) →
    (insertItem p l).Pairwise fun a b => a.1.lt b.1 = true
  | [], _, _ => List.pairwise_singleton _ _
  | q :: l, hl, hp => by
    obtain ⟨hq, hl⟩ := List.pairwise_cons.mp hl
    rw [insertItem]
    split
    · next hlt =>
      refine List.pairwise_cons.mpr
        ⟨?_, insertItem_sorted hl fun r hr => hp r (List.mem_cons_of_mem _ hr)⟩
      intro r hr
      rcases List.mem_cons.mp ((insertItem_perm p l).mem_iff.mp hr) with rfl | hr
      · exact hlt
      · exact hq r hr
    · next hlt =>
      have hpq := (hp q List.mem_cons_self).resolve_right hlt
      refine List.pairwise_cons.mpr ⟨?_, List.pairwise_cons.mpr ⟨hq, hl⟩⟩
      intro r hr
      rcases List.mem_cons.mp hr with rfl | hr
      · exact hpq
      · exact PyKey.lt_trans hpq (hq r hr)

def insertSort (l : List (PyKey × Json)) : List (PyKey × Json) := l.foldr insertItem []

theorem insertSort_perm : ∀ l, (insertSort l).Perm l
  | [] => .refl _
  | p :: l => (insertItem_perm p _).trans ((insertSort_perm l).cons p)

theorem insertSort_sorted : ∀ {l : List (PyKey × Json)},
    (l.Pairwise fun a b => a.1.lt b.1 = true ∨ b.1.lt a.1 = true) →
    (insertSort l).Pairwise fun a b => a.1.lt b.1 = true
  | [], _ => .nil
  | p :: l, hl => by
    obtain ⟨hp, hl⟩ := List.pairwise_cons.mp hl
    exact insertItem_sorted (insertSort_sorted hl) fun q hq =>
      hp q ((insertSort_perm l).mem_iff.mp hq)

/-- Sorting by insertion. -/
def KeySort.insertion : KeySort :=
  ⟨insertSort, insertSort_perm, fun _ hl => insertSort_sorted hl⟩

/-! ## Writing -/

mutual

/-- The tree of a value. -/
def toJson (S : KeySort) (sortKeys : Bool) : PyVal → Json
  | .none => .null
  | .bool b => .bool b
  | .int i => .int i
  | .float f => .float f
  | .str s => .str s
  | .list xs => .arr (toJsonElems S sortKeys xs)
  | .tuple xs => .arr (toJsonElems S sortKeys xs)
  | .dict items =>
    let ts := toJsonItems S sortKeys items
    .obj ((if sortKeys then S.sort ts else ts).map fun p => (keyText p.1, p.2))

def toJsonElems (S : KeySort) (sortKeys : Bool) : List PyVal → List Json
  | [] => []
  | x :: xs => toJson S sortKeys x :: toJsonElems S sortKeys xs

def toJsonItems (S : KeySort) (sortKeys : Bool) : List (PyKey × PyVal) → List (PyKey × Json)
  | [] => []
  | (k, v) :: items => (k, toJson S sortKeys v) :: toJsonItems S sortKeys items

end

mutual

/-- Sorting raises nowhere in the value. -/
def sortable : PyVal → Bool
  | .list xs | .tuple xs => sortableElems xs
  | .dict items => comparable (items.map Prod.fst) && sortableItems items
  | _ => true

def sortableElems : List PyVal → Bool
  | [] => true
  | x :: xs => sortable x && sortableElems xs

def sortableItems : List (PyKey × PyVal) → Bool
  | [] => true
  | (_, v) :: items => sortable v && sortableItems items

end

/-- `json.dumps(v, sort_keys=sortKeys)`. -/
def dumps (S : KeySort) (sortKeys : Bool) (st : JsonStyle) (v : PyVal) : Except PyError Str :=
  if sortKeys && !sortable v then .error .typeError else .ok (render st (toJson S sortKeys v))

/-! ## Reading -/

/-- `d[key] = value` -/
def dictInsert (k : Str) (v : PyVal) : List (PyKey × PyVal) → List (PyKey × PyVal)
  | [] => [(.str k, v)]
  | (k', v') :: items =>
    if k' = .str k then (k', v) :: items else (k', v') :: dictInsert k v items

/-- The dict built from the members of an object, in their order. -/
def dictOfPairs (kvs : List (Str × PyVal)) : List (PyKey × PyVal) :=
  kvs.foldl (fun items p => dictInsert p.1 p.2 items) []

mutual

/-- The value of a tree. -/
def ofJson : Json → PyVal
  | .null => .none
  | .bool b => .bool b
  | .int i => .int i
  | .float f => .float f
  | .str s => .str s
  | .arr xs => .list (ofJsonElems xs)
  | .obj kvs => .dict (dictOfPairs (ofJsonMembers kvs))

def ofJsonElems : List Json → List PyVal
  | [] => []
  | x :: xs => ofJson x :: ofJsonElems xs

def ofJsonMembers : List (Str × Json) → List (Str × PyVal)
  | [] => []
  | (k, v) :: kvs => (k, ofJson v) :: ofJsonMembers kvs

end

/-- `json.loads` -/
def loads (s : Str) : Except PyError PyVal :=
  match parse s with
  | some j => .ok (ofJson j)
  | none => .error .jsonDecodeError

/-! ## The helpers are maps -/

section

variable (S : KeySort) (b : Bool)

@[simp] theorem toJsonElems_eq : ∀ xs, toJsonElems S b xs = xs.map (toJson S b)
  | [] => rfl
  | x :: xs => by rw [toJsonElems, toJsonElems_eq xs, List.map_cons]

@[simp] theorem toJsonItems_eq :
    ∀ items, toJsonItems S b items = items.map fun p => (p.1, toJson S b p.2)
  | [] => rfl
  | (k, v) :: items => by rw [toJsonItems, toJsonItems_eq items, List.map_cons]

@[simp] theorem ofJsonElems_eq : ∀ xs, ofJsonElems xs = xs.map ofJson
  | [] => rfl
  | x :: xs => by rw [ofJsonElems, ofJsonElems_eq xs, List.map_cons]

@[simp] theorem ofJsonMembers_eq : ∀ kvs, ofJsonMembers kvs = kvs.map fun p => (p.1, ofJson p.2)
  | [] => rfl
  | (k, v) :: kvs => by rw [ofJsonMembers, ofJsonMembers_eq kvs, List.map_cons]

@[simp] theorem sortableElems_eq : ∀ xs, sortableElems xs = xs.all sortable
  | [] => rfl
  | x :: xs => by rw [sortableElems, sortableElems_eq xs, List.all_cons]

@[simp] theorem sortableItems_eq : ∀ items, sortableItems items = items.all fun p => sortable p.2
  | [] => rfl
  | (k, v) :: items => by rw [sortableItems, sortableItems_eq items, List.all_cons]

end

/-! ## The dict of an object -/

theorem dictInsert_keys (k : Str) (v : PyVal) : ∀ items : List (PyKey × PyVal),
    (dictInsert k v items).map Prod.fst
      = if PyKey.str k ∈ items.map Prod.fst then items.map Prod.fst
        else items.map Prod.fst ++ [.str k]
  | [] => by simp [dictInsert]
  | (k', v') :: items => by
    rw [dictInsert]
    by_cases h : k' = .str k
    · simp [h]
    · rw [if_neg h, List.map_cons, dictInsert_keys k v items]
      have h' : ¬PyKey.str k = k' := fun e => h e.symm
      simp only [List.map_cons, List.mem_cons, h', false_or]
      split <;> rfl

theorem mem_dictInsert {k : Str} {v : PyVal} {p : PyKey × PyVal} :
    ∀ {items : List (PyKey × PyVal)}, p ∈ dictInsert k v items → p = (.str k, v) ∨ p ∈ items
  | [], h => by simpa [dictInsert] using h
  | (k', v') :: items, h => by
    rw [dictInsert] at h
    split at h
    · next hk =>
      rcases List.mem_cons.mp h with rfl | h
      · exact Or.inl (by rw [hk])
      · exact Or.inr (List.mem_cons_of_mem _ h)
    · rcases List.mem_cons.mp h with rfl | h
      · exact Or.inr List.mem_cons_self
      · exact (mem_dictInsert h).imp id (List.mem_cons_of_mem _)

/-- What holds of any dict built by insertions: distinct string keys. -/
structure StrDict (items : List (PyKey × PyVal)) : Prop where
  str : ∀ p ∈ items, p.1.isStr = true
  nodup : (items.map Prod.fst).Nodup

theorem StrDict.insert {items : List (PyKey × PyVal)} (h : StrDict items) (k : Str) (v : PyVal) :
    StrDict (dictInsert k v items) where
  str := by
    intro p hp
    rcases mem_dictInsert hp with rfl | hp
    · rfl
    · exact h.str p hp
  nodup := by
    rw [dictInsert_keys]
    split
    · exact h.nodup
    · next hmem =>
      exact List.nodup_append.mpr ⟨h.nodup, List.nodup_singleton _, by
        rintro a ha b hb rfl
        rw [List.mem_singleton] at hb
        exact hmem (hb ▸ ha)⟩

variable {kvs : List (Str × PyVal)}

theorem dictOfPairs_induction {Q : List (PyKey × PyVal) → Prop} (h0 : Q [])
    (hstep : ∀ items, ∀ p ∈ kvs, Q items → Q (dictInsert p.1 p.2 items)) :
    Q (dictOfPairs kvs) := by
  unfold dictOfPairs
  generalize ([] : List (PyKey × PyVal)) = acc at h0
  induction kvs generalizing acc with
  | nil => exact h0
  | cons p kvs ih =>
    exact ih (fun items q hq => hstep items q (List.mem_cons_of_mem _ hq)) _
      (hstep acc p List.mem_cons_self h0)

theorem strDict_dictOfPairs (kvs : List (Str × PyVal)) : StrDict (dictOfPairs kvs) :=
  dictOfPairs_induction ⟨by simp, by simp⟩ fun _ p _ h => h.insert p.1 p.2

/-- The values of the dict are among the values of the members. -/
theorem mem_dictOfPairs :
    ∀ p ∈ dictOfPairs kvs, ∃ q ∈ kvs, p = (.str q.1, q.2) :=
  dictOfPairs_induction (Q := fun items => ∀ p ∈ items, ∃ q ∈ kvs, p = (PyKey.str q.1, q.2))
    (by simp) fun _ q hq h p hp => by
      rcases mem_dictInsert hp with rfl | hp
      · exact ⟨q, hq, rfl⟩
      · exact h p hp

theorem dictInsert_of_not_mem {k : Str} {v : PyVal} : ∀ {items : List (PyKey × PyVal)},
    PyKey.str k ∉ items.map Prod.fst → dictInsert k v items = items ++ [(.str k, v)]
  | [], _ => rfl
  | (k', v') :: items, h => by
    simp only [List.map_cons, List.mem_cons, not_or] at h
    rw [dictInsert, if_neg (fun e => h.1 e.symm), dictInsert_of_not_mem h.2, List.cons_append]

/-- Members with distinct keys become the items, in order. -/
theorem dictOfPairs_of_nodup (h : (kvs.map Prod.fst).Nodup) :
    dictOfPairs kvs = kvs.map fun p => (.str p.1, p.2) := by
  have key : ∀ (l : List (Str × PyVal)) (acc : List (PyKey × PyVal)),
      (acc.map Prod.fst ++ l.map fun p => PyKey.str p.1).Nodup →
      l.foldl (fun items p => dictInsert p.1 p.2 items) acc
        = acc ++ l.map fun p => (PyKey.str p.1, p.2) := by
    intro l
    induction l with
    | nil => intro acc _; simp
    | cons p l ih =>
      intro acc hnd
      have hp : PyKey.str p.1 ∉ acc.map Prod.fst := by
        intro hmem
        exact (List.nodup_append.mp hnd).2.2 _ hmem _ List.mem_cons_self rfl
      rw [List.foldl_cons, dictInsert_of_not_mem hp, ih _ (by simpa using hnd)]
      simp
  have hnd : (kvs.map fun p => PyKey.str p.1).Nodup := by
    have := h.map (f := PyKey.str) (fun a b hab => PyKey.str.inj hab)
    simpa [List.map_map, Function.comp_def] using this
  unfold dictOfPairs
  rw [key kvs [] (by simpa using hnd), List.nil_append]

end Py
