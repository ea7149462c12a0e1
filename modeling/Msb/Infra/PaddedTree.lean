import Mathlib

/-!
# Trees over padded levels

A binary tree over a list, built level by level: the entries of a level are joined two by two,
and the last entry of an odd level is joined with itself. What joins two entries is a parameter.

* `walk_partners` — the partners on the way up lead from an entry to the root
* `walk_sound` — a path of the tree's depth that reaches the root starts at an entry of the tree
* `walk_length` — a path that reaches the root has the tree's depth
* `climb_injective` — two lists without duplicates and with one root are equal

The padding is why the last one asks for lists without duplicates: a level of odd length and the
same level with its last entry twice have the same level above them.
-/

namespace PaddedTree

variable {α : Type*} (node : α × α → α)

/-- The entries two by two, the last one with itself where none is left for it. -/
def pairs : List α → List (α × α)
  | [] => []
  | [a] => [(a, a)]
  | a :: b :: level => (a, b) :: pairs level

/-- The level above. -/
def up (level : List α) : List α := (pairs level).map node

/-- `k` levels up. -/
def climb : Nat → List α → List α
  | 0, level => level
  | k + 1, level => climb k (up node level)

/-- The pairs that are joined on `k` levels. -/
def joined : Nat → List α → List (α × α)
  | 0, _ => []
  | k + 1, level => pairs level ++ joined k (up node level)

/-- The entry `x` of place `i` and its partner, in their order. -/
def side (i : Nat) (x s : α) : α × α := if i % 2 = 0 then (x, s) else (s, x)

/-- From the entry `x` of place `i` up along a path of partners. -/
def walk : α → Nat → List α → α
  | x, _, [] => x
  | x, i, s :: path => walk (node (side i x s)) (i / 2) path

/-- The pairs that a walk joins. -/
def walked : α → Nat → List α → List (α × α)
  | _, _, [] => []
  | x, i, s :: path => side i x s :: walked (node (side i x s)) (i / 2) path

/-- The entry that the one of place `i` is joined with. -/
def partner (level : List α) (i : Nat) : Option α :=
  if i % 2 = 0 then level[i + 1]?.or level[i]? else level[i - 1]?

/-- The partners on `k` levels up from place `i`. -/
def partners : Nat → List α → Nat → Option (List α)
  | 0, _, _ => some []
  | k + 1, level, i => do
    let s ← partner level i
    let path ← partners k (up node level) (i / 2)
    some (s :: path)

/-- The place among `n` entries that a walk of `k` steps from `i` speaks of: only the low bits of
`i` count, and what lies past the last entry is the last entry. -/
def place : Nat → Nat → Nat → Nat
  | 0, _, _ => 0
  | k + 1, n, i => min (2 * place k ((n + 1) / 2) (i / 2) + i % 2) (n - 1)

/-! ## One level -/

theorem pairs_length : ∀ level : List α, (pairs level).length = (level.length + 1) / 2
  | [] => by simp [pairs]
  | [_] => by simp [pairs]
  | _ :: _ :: level => by
    simp only [pairs, List.length_cons, pairs_length level]
    omega

@[simp] theorem up_length (level : List α) : (up node level).length = (level.length + 1) / 2 := by
  rw [up, List.length_map, pairs_length]

/-- A pair is an entry of even place with the one after it, or with itself. -/
theorem getElem?_pairs : ∀ (level : List α) (r : Nat),
    (pairs level)[r]? = level[2 * r]?.map fun a => (a, level[2 * r + 1]?.getD a)
  | [], r => by simp [pairs]
  | [a], 0 => by simp [pairs]
  | [a], r + 1 => by
    have hfar : 2 * (r + 1) = 2 * r + 1 + 1 := by omega
    simp [pairs, hfar]
  | a :: b :: level, 0 => by simp [pairs]
  | a :: b :: level, r + 1 => by
    have hfar : 2 * (r + 1) = 2 * r + 1 + 1 := by omega
    simp only [pairs, hfar, List.getElem?_cons_succ, getElem?_pairs level r]

/-- An entry and its partner are joined. -/
theorem pairs_partner {level : List α} {i : Nat} {x : α} (h : level[i]? = some x) :
    ∃ s, partner level i = some s ∧ (pairs level)[i / 2]? = some (side i x s) := by
  have hi : i < level.length := (List.getElem?_eq_some_iff.mp h).1
  rcases Nat.mod_two_eq_zero_or_one i with heven | hodd
  · have hhalf : 2 * (i / 2) = i := by omega
    rw [getElem?_pairs, hhalf, h, partner, if_pos heven]
    refine ⟨level[i + 1]?.getD x, ?_, ?_⟩
    · rw [h]
      cases level[i + 1]? <;> rfl
    · simp [side, heven]
  · have hhalf : 2 * (i / 2) = i - 1 := by omega
    have hback : i - 1 + 1 = i := by omega
    obtain ⟨s, hs⟩ : ∃ s, level[i - 1]? = some s :=
      ⟨level[i - 1], List.getElem?_eq_getElem (by omega)⟩
    refine ⟨s, ?_, ?_⟩
    · rw [partner, if_neg (by omega), hs]
    · rw [getElem?_pairs, hhalf, hs, hback, h]
      simp [side, hodd]

/-- Where the pair that a walk joins first is one of the level, its entry is of the level. -/
theorem getElem?_of_side {level : List α} {i r : Nat} {x s : α}
    (h : (pairs level)[r]? = some (side i x s)) :
    level[min (2 * r + i % 2) (level.length - 1)]? = some x := by
  rw [getElem?_pairs] at h
  obtain ⟨a, ha, hside⟩ := Option.map_eq_some_iff.mp h
  have hr : 2 * r < level.length := (List.getElem?_eq_some_iff.mp ha).1
  rcases Nat.mod_two_eq_zero_or_one i with heven | hodd
  · rw [side, if_pos heven] at hside
    have hmin : min (2 * r + i % 2) (level.length - 1) = 2 * r := by omega
    rw [hmin, ha, (Prod.mk.inj hside).1]
  · rw [side, if_neg (by omega)] at hside
    have hx := (Prod.mk.inj hside).2
    by_cases hin : 2 * r + 1 < level.length
    · have hmin : min (2 * r + i % 2) (level.length - 1) = 2 * r + 1 := by omega
      rw [List.getElem?_eq_getElem hin, Option.getD_some] at hx
      rw [hmin, List.getElem?_eq_getElem hin, hx]
    · -- the last entry of an odd level is its own partner
      have hmin : min (2 * r + i % 2) (level.length - 1) = 2 * r := by omega
      rw [List.getElem?_eq_none (by omega), Option.getD_none] at hx
      rw [hmin, ha, hx]

theorem mem_of_mem_pairs : ∀ {level : List α} {p : α × α}, p ∈ pairs level →
    p.1 ∈ level ∧ p.2 ∈ level
  | [a], p, hp => by
    rw [pairs, List.mem_singleton] at hp
    simp [hp]
  | a :: b :: level, p, hp => by
    rw [pairs, List.mem_cons] at hp
    rcases hp with rfl | hp
    · simp
    · obtain ⟨h1, h2⟩ := mem_of_mem_pairs hp
      exact ⟨by simp [h1], by simp [h2]⟩

theorem pairs_nodup : ∀ {level : List α}, level.Nodup → (pairs level).Nodup
  | [], _ => List.nodup_nil
  | [a], _ => List.nodup_singleton _
  | a :: b :: level, h => by
    rw [List.nodup_cons, List.nodup_cons] at h
    rw [pairs, List.nodup_cons]
    refine ⟨fun hmem => h.1 ?_, pairs_nodup h.2.2⟩
    exact List.mem_cons_of_mem b (mem_of_mem_pairs hmem).1

/-- Without duplicates, a level is known by its pairs: only a last entry stands twice in one. -/
theorem pairs_injective : ∀ {l m : List α}, l.Nodup → m.Nodup → pairs l = pairs m → l = m
  | [], [], _, _, _ => rfl
  | [], [_], _, _, h => by simp [pairs] at h
  | [], _ :: _ :: _, _, _, h => by simp [pairs] at h
  | [_], [], _, _, h => by simp [pairs] at h
  | [a], [c], _, _, h => by
    simp only [pairs, List.cons.injEq, Prod.mk.injEq, and_true] at h
    rw [h.1]
  | [a], c :: d :: m, _, hm, h => by
    simp only [pairs, List.cons.injEq, Prod.mk.injEq] at h
    simp [← h.1.1, ← h.1.2] at hm
  | _ :: _ :: _, [], _, _, h => by simp [pairs] at h
  | a :: b :: l, [c], hl, _, h => by
    simp only [pairs, List.cons.injEq, Prod.mk.injEq] at h
    simp [h.1.1, h.1.2] at hl
  | a :: b :: l, c :: d :: m, hl, hm, h => by
    simp only [pairs, List.cons.injEq, Prod.mk.injEq] at h
    have hl' := (List.nodup_cons.mp (List.nodup_cons.mp hl).2).2
    have hm' := (List.nodup_cons.mp (List.nodup_cons.mp hm).2).2
    rw [h.1.1, h.1.2, pairs_injective hl' hm' h.2]

variable {node}

theorem up_nodup {level : List α} (h : level.Nodup)
    (hinj : ∀ p ∈ pairs level, ∀ q ∈ pairs level, node p = node q → p = q) :
    (up node level).Nodup :=
  (List.nodup_map_iff_inj_on (pairs_nodup h)).mpr hinj

/-- Lists that a function which tells their members apart maps to one list are equal. -/
theorem eq_of_map_eq {β : Type*} {f : α → β} : ∀ {l m : List α},
    (∀ a ∈ l, ∀ b ∈ m, f a = f b → a = b) → l.map f = m.map f → l = m
  | [], [], _, _ => rfl
  | [], _ :: _, _, h => by simp at h
  | _ :: _, [], _, h => by simp at h
  | a :: l, b :: m, hinj, h => by
    rw [List.map_cons, List.map_cons, List.cons.injEq] at h
    rw [hinj a List.mem_cons_self b List.mem_cons_self h.1,
      eq_of_map_eq (fun a ha b hb =>
        hinj a (List.mem_cons_of_mem _ ha) b (List.mem_cons_of_mem _ hb)) h.2]

/-! ## Many levels -/

theorem climb_add : ∀ (j k : Nat) (level : List α),
    climb node (j + k) level = climb node k (climb node j level)
  | 0, k, level => by rw [Nat.zero_add, climb]
  | j + 1, k, level => by
    rw [show j + 1 + k = j + k + 1 from by omega, climb, climb, climb_add j k]

theorem joined_add : ∀ (j k : Nat) (level : List α),
    joined node (j + k) level = joined node j level ++ joined node k (climb node j level)
  | 0, k, level => by rw [Nat.zero_add, climb, joined, List.nil_append]
  | j + 1, k, level => by
    rw [show j + 1 + k = j + k + 1 from by omega, joined, joined, climb, joined_add j k,
      List.append_assoc]

/-- An entry above the lowest level joins a pair. -/
theorem eq_node_of_mem_climb : ∀ {k : Nat} {level : List α} {x : α}, 0 < k →
    x ∈ climb node k level → ∃ p ∈ joined node k level, x = node p
  | 1, level, x, _, hx => by
    obtain ⟨p, hp, rfl⟩ := List.mem_map.mp (show x ∈ up node level from hx)
    exact ⟨p, List.mem_append_left _ hp, rfl⟩
  | k + 2, level, x, _, hx => by
    obtain ⟨p, hp, heq⟩ := eq_node_of_mem_climb (k := k + 1) (by omega)
      (show x ∈ climb node (k + 1) (up node level) from hx)
    exact ⟨p, List.mem_append_right _ hp, heq⟩

theorem climb_nodup : ∀ {k : Nat} {level : List α}, level.Nodup →
    (∀ p ∈ joined node k level, ∀ q ∈ joined node k level, node p = node q → p = q) →
    (climb node k level).Nodup
  | 0, _, h, _ => h
  | k + 1, _, h, hinj =>
    climb_nodup (k := k)
      (up_nodup h fun p hp q hq =>
        hinj p (List.mem_append_left _ hp) q (List.mem_append_left _ hq))
      fun p hp q hq => hinj p (List.mem_append_right _ hp) q (List.mem_append_right _ hq)

/-- **A root commits to the list.** Here for lists of one depth. -/
theorem climb_injective : ∀ {k : Nat} {l m : List α}, l.Nodup → m.Nodup →
    (∀ p ∈ joined node k l ++ joined node k m, ∀ q ∈ joined node k l ++ joined node k m,
      node p = node q → p = q) →
    climb node k l = climb node k m → l = m
  | 0, _, _, _, _, _, h => h
  | k + 1, l, m, hl, hm, hinj, h => by
    have hleft : ∀ p ∈ pairs l, p ∈ joined node (k + 1) l ++ joined node (k + 1) m :=
      fun p hp => List.mem_append_left _ (List.mem_append_left _ hp)
    have hright : ∀ p ∈ pairs m, p ∈ joined node (k + 1) l ++ joined node (k + 1) m :=
      fun p hp => List.mem_append_right _ (List.mem_append_left _ hp)
    have hup : up node l = up node m := by
      refine climb_injective
        (up_nodup hl fun p hp q hq => hinj p (hleft p hp) q (hleft q hq))
        (up_nodup hm fun p hp q hq => hinj p (hright p hp) q (hright q hq)) ?_ h
      intro p hp q hq
      have hin : ∀ p ∈ joined node k (up node l) ++ joined node k (up node m),
          p ∈ joined node (k + 1) l ++ joined node (k + 1) m := by
        intro p hp
        rcases List.mem_append.mp hp with hp | hp
        · exact List.mem_append_left _ (List.mem_append_right _ hp)
        · exact List.mem_append_right _ (List.mem_append_right _ hp)
      exact hinj p (hin p hp) q (hin q hq)
    exact pairs_injective hl hm
      (eq_of_map_eq (fun p hp q hq => hinj p (hleft p hp) q (hright q hq)) hup)

/-- The depth of a tree bounds its entries. -/
theorem length_le_of_climb : ∀ {k : Nat} {level : List α} {root : α},
    climb node k level = [root] → level.length ≤ 2 ^ k
  | 0, level, root, h => by
    rw [show level = [root] from h]
    simp
  | k + 1, level, root, h => by
    have := length_le_of_climb (k := k) h
    rw [up_length] at this
    rw [pow_succ]
    omega

/-! ## Walks -/

theorem walk_append : ∀ (path rest : List α) (x : α) (i : Nat),
    walk node x i (path ++ rest) = walk node (walk node x i path) (i / 2 ^ path.length) rest
  | [], rest, x, i => by simp [walk]
  | s :: path, rest, x, i => by
    rw [List.cons_append, walk, walk, walk_append path rest, List.length_cons, pow_succ',
      Nat.div_div_eq_div_mul]

theorem walked_append : ∀ (path rest : List α) (x : α) (i : Nat),
    walked node x i (path ++ rest)
      = walked node x i path ++ walked node (walk node x i path) (i / 2 ^ path.length) rest
  | [], rest, x, i => by simp [walk, walked]
  | s :: path, rest, x, i => by
    rw [List.cons_append, walked, walked, walk, walked_append path rest, List.length_cons,
      pow_succ', Nat.div_div_eq_div_mul, List.cons_append]

/-- What a walk of at least one step reaches joins a pair. -/
theorem walk_eq_node : ∀ {path : List α} {x : α} {i : Nat}, path ≠ [] →
    ∃ q ∈ walked node x i path, walk node x i path = node q
  | [s], x, i, _ => ⟨side i x s, List.mem_cons_self, rfl⟩
  | s :: t :: path, x, i, _ => by
    obtain ⟨q, hq, heq⟩ := walk_eq_node (x := node (side i x s)) (i := i / 2)
      (List.cons_ne_nil t path)
    exact ⟨q, List.mem_cons_of_mem _ hq, heq⟩

/-- **Completeness.** From any entry the partners lead up to the root. -/
theorem walk_partners : ∀ (k : Nat) {level : List α} {i : Nat} {x : α}, level[i]? = some x →
    ∃ path, partners node k level i = some path ∧ path.length = k ∧
      (climb node k level)[i / 2 ^ k]? = some (walk node x i path)
  | 0, level, i, x, h => ⟨[], rfl, rfl, by simpa [climb, walk] using h⟩
  | k + 1, level, i, x, h => by
    obtain ⟨s, hs, hpair⟩ := pairs_partner h
    have hup : (up node level)[i / 2]? = some (node (side i x s)) := by
      rw [up, List.getElem?_map, hpair, Option.map_some]
    obtain ⟨path, hpath, hlen, hroot⟩ := walk_partners k hup
    refine ⟨s :: path, ?_, by rw [List.length_cons, hlen], ?_⟩
    · simp [partners, hs, hpath]
    · rw [climb, walk, pow_succ', ← Nat.div_div_eq_div_mul]
      exact hroot

/-- **Soundness.** A path of the tree's depth that reaches the root starts at an entry: at the one
of place `i`, where `i` is a place at all. -/
theorem walk_sound : ∀ {path : List α} {level : List α} {x root : α} {i : Nat},
    climb node path.length level = [root] → walk node x i path = root →
    (∀ p ∈ joined node path.length level, ∀ q ∈ walked node x i path, node p = node q → p = q) →
    level[place path.length level.length i]? = some x
  | [], level, x, root, i, hroot, hwalk, _ => by
    rw [show level = [root] from hroot, ← show x = root from hwalk]
    rfl
  | s :: path, level, x, root, i, hroot, hwalk, hinj => by
    have hrest : climb node path.length (up node level) = [root] := hroot
    have ih := walk_sound hrest hwalk
      fun p hp q hq => hinj p (List.mem_append_right _ hp) q (List.mem_cons_of_mem _ hq)
    rw [up_length, up, List.getElem?_map] at ih
    obtain ⟨p, hp, heq⟩ := Option.map_eq_some_iff.mp ih
    have hmem : p ∈ joined node (path.length + 1) level :=
      List.mem_append_left _ (List.mem_of_getElem? hp)
    rw [hinj p hmem _ List.mem_cons_self heq] at hp
    exact getElem?_of_side hp

/-- **A path that reaches the root has the tree's depth**, where what is joined can be told from
the entries themselves. -/
theorem walk_length {path level : List α} {x root : α} {i d : Nat}
    (hroot : climb node d level = [root]) (hwalk : walk node x i path = root)
    (hinj : ∀ p ∈ joined node d level, ∀ q ∈ walked node x i path, node p = node q → p = q)
    (hx : ∀ p ∈ joined node d level, x ≠ node p)
    (hlevel : ∀ a ∈ level, ∀ q ∈ walked node x i path, a ≠ node q) : path.length = d := by
  rcases lt_trichotomy path.length d with hlt | heq | hgt
  · -- the walk would start at a node inside the tree
    obtain ⟨j, rfl⟩ : ∃ j, d = j + path.length := ⟨d - path.length, by omega⟩
    rw [climb_add] at hroot
    have hmem := List.mem_of_getElem? (walk_sound hroot hwalk fun p hp q hq => by
      refine hinj p ?_ q hq
      rw [joined_add]
      exact List.mem_append_right _ hp)
    obtain ⟨p, hp, heq⟩ := eq_node_of_mem_climb (by omega) hmem
    refine absurd heq (hx p ?_)
    rw [joined_add]
    exact List.mem_append_left _ hp
  · exact heq
  · -- the walk would pass an entry of the tree on its way
    obtain ⟨below, above, rfl, rfl⟩ : ∃ below above, path = below ++ above ∧ above.length = d :=
      ⟨path.take (path.length - d), path.drop (path.length - d), by simp,
        by rw [List.length_drop]; omega⟩
    have hne : below ≠ [] := by
      rintro rfl
      simp at hgt
    rw [walk_append] at hwalk
    rw [walked_append] at hinj hlevel
    have hmem := List.mem_of_getElem? (walk_sound hroot hwalk
      fun p hp q hq => hinj p hp q (List.mem_append_right _ hq))
    obtain ⟨q, hq, heq⟩ := walk_eq_node (x := x) (i := i) hne
    exact absurd heq (hlevel _ hmem q (List.mem_append_left _ hq))

/-! ## Places -/

/-- A place of the list is its own place. -/
theorem place_eq_self : ∀ {k n i : Nat}, i < n → n ≤ 2 ^ k → place k n i = i
  | 0, n, i, hi, hn => by
    rw [pow_zero] at hn
    rw [place]
    omega
  | k + 1, n, i, hi, hn => by
    rw [pow_succ] at hn
    rw [place, place_eq_self (show i / 2 < (n + 1) / 2 by omega) (by omega)]
    omega

end PaddedTree
