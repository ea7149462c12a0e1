import Mathlib

/-!
# Lists with a key

A list whose elements have a key, used as a table: an element is found by its key, and one that is
put replaces the one with its key.

* `find_put` — what is found after a put
* `find_perm` — where no two elements share a key, the order of the list does not matter
-/

namespace Keyed

variable {κ α : Type*} (key : α → κ)

/-- No two elements share a key. -/
def Unique (xs : List α) : Prop := (xs.map key).Nodup

section

variable {key} {xs ys : List α} {a b : α}

theorem unique_nil : Unique key [] := List.nodup_nil

theorem Unique.perm (h : Unique key xs) (hperm : xs.Perm ys) : Unique key ys :=
  ((hperm.map key).nodup_iff).mp h

theorem Unique.eq_of_mem (h : Unique key xs) (ha : a ∈ xs) (hb : b ∈ xs) (hkey : key a = key b)
    : a = b :=
  List.inj_on_of_nodup_map h ha hb hkey

end

variable [DecidableEq κ]

/-- The last element with the key. -/
def find (k : κ) (xs : List α) : Option α := xs.reverse.find? fun a => key a = k

/-- The first element with the key of `a` becomes `a`. -/
def replace (a : α) (xs : List α) : List α := xs.set (xs.findIdx fun b => key b = key a) a

/-- An element with a new key goes to the end. -/
def put (a : α) (xs : List α) : List α :=
  match find key (key a) xs with
  | none => xs ++ [a]
  | some _ => replace key a xs

variable {key} {xs ys : List α} {a b : α} {k : κ}

theorem find_eq_none : find key k xs = none ↔ ∀ a ∈ xs, key a ≠ k := by
  unfold find
  rw [List.find?_eq_none]
  simp

theorem find_key (h : find key k xs = some a) : a ∈ xs ∧ key a = k := by
  have hkey := List.find?_some h
  exact ⟨List.mem_reverse.mp (List.mem_of_find?_eq_some h), of_decide_eq_true hkey⟩

theorem find_eq_some (h : Unique key xs) : find key k xs = some a ↔ a ∈ xs ∧ key a = k := by
  refine ⟨find_key, ?_⟩
  rintro ⟨ha, rfl⟩
  cases hfind : find key (key a) xs with
  | none => exact absurd rfl (find_eq_none.mp hfind a ha)
  | some b =>
    obtain ⟨hb, hkey⟩ := find_key hfind
    rw [h.eq_of_mem hb ha hkey]

/-- **The order does not matter.** -/
theorem find_perm (h : Unique key xs) (hperm : xs.Perm ys) : find key k xs = find key k ys := by
  ext a
  rw [find_eq_some h, find_eq_some (h.perm hperm), hperm.mem_iff]

theorem replace_cons_of_eq (h : key b = key a) : replace key a (b :: xs) = a :: xs := by
  unfold replace
  rw [List.findIdx_cons, decide_eq_true h]
  rfl

theorem replace_cons_of_ne (h : key b ≠ key a) :
    replace key a (b :: xs) = b :: replace key a xs := by
  unfold replace
  rw [List.findIdx_cons, decide_eq_false h]
  rfl

/-- The keys stay as they are. -/
theorem map_replace : (replace key a xs).map key = xs.map key := by
  induction xs with
  | nil => rfl
  | cons b xs ih =>
    by_cases h : key b = key a
    · rw [replace_cons_of_eq h, List.map_cons, List.map_cons, h]
    · rw [replace_cons_of_ne h, List.map_cons, List.map_cons, ih]

/-- Of the others, every one stays. -/
theorem mem_replace_of_ne (h : key b ≠ key a) : b ∈ replace key a xs ↔ b ∈ xs := by
  induction xs with
  | nil => exact Iff.rfl
  | cons c xs ih =>
    by_cases hc : key c = key a
    · rw [replace_cons_of_eq hc, List.mem_cons, List.mem_cons]
      refine or_congr_left ?_
      have hba : b ≠ a := fun hb => h (congrArg key hb)
      have hbc : b ≠ c := fun hb => h ((congrArg key hb).trans hc)
      exact iff_of_false hba hbc
    · rw [replace_cons_of_ne hc, List.mem_cons, List.mem_cons, ih]

theorem mem_replace_self (h : ∃ c ∈ xs, key c = key a) : a ∈ replace key a xs := by
  induction xs with
  | nil =>
    obtain ⟨c, hc, -⟩ := h
    cases hc
  | cons c xs ih =>
    by_cases hc : key c = key a
    · rw [replace_cons_of_eq hc]
      exact List.mem_cons_self
    · rw [replace_cons_of_ne hc]
      obtain ⟨d, hd, hkey⟩ := h
      rcases List.mem_cons.mp hd with rfl | hd
      · exact absurd hkey hc
      · exact List.mem_cons_of_mem _ (ih ⟨d, hd, hkey⟩)

theorem Unique.put (h : Unique key xs) : Unique key (put key a xs) := by
  unfold Keyed.put
  split
  · next hfind =>
    unfold Unique
    rw [List.map_append, List.map_singleton, List.nodup_append]
    refine ⟨h, List.nodup_singleton _, ?_⟩
    rintro k hk _ hk' rfl
    obtain ⟨b, hb, hkey⟩ := List.mem_map.mp hk
    rw [List.mem_singleton.mp hk'] at hkey
    exact find_eq_none.mp hfind b hb hkey
  · unfold Unique
    rw [map_replace]
    exact h

theorem mem_put_self : a ∈ put key a xs := by
  unfold put
  split
  · exact List.mem_append_right _ List.mem_cons_self
  · next c hfind =>
    obtain ⟨hc, hkey⟩ := find_key hfind
    exact mem_replace_self ⟨c, hc, hkey⟩

theorem mem_put_of_ne (h : key b ≠ key a) : b ∈ put key a xs ↔ b ∈ xs := by
  unfold put
  split
  · rw [List.mem_append, List.mem_singleton, or_iff_left]
    intro hb
    exact h (congrArg key hb)
  · exact mem_replace_of_ne h

theorem mem_of_mem_put (h : b ∈ put key a xs) : b = a ∨ b ∈ xs := by
  unfold put at h
  split at h
  · exact (List.mem_append.mp h).symm.imp_left List.mem_singleton.mp
  · exact (List.mem_or_eq_of_mem_set h).symm

/-- A change that leaves the keys alone. -/
theorem find_map {f : α → α} (hf : ∀ a, key (f a) = key a) :
    find key k (xs.map f) = (find key k xs).map f := by
  unfold find
  rw [← List.map_reverse, List.find?_map]
  refine congrArg (Option.map f) (congrArg (fun p => List.find? p xs.reverse) ?_)
  funext a
  simp only [Function.comp_apply, hf]

/-- An element that is there already. -/
theorem put_self (h : Unique key xs) (ha : a ∈ xs) : put key a xs = xs := by
  have hfind : find key (key a) xs = some a := (find_eq_some h).mpr ⟨ha, rfl⟩
  unfold put
  rw [hfind]
  show replace key a xs = xs
  clear hfind
  induction xs with
  | nil => cases ha
  | cons b xs ih =>
    by_cases hb : key b = key a
    · rw [replace_cons_of_eq hb, h.eq_of_mem List.mem_cons_self ha hb]
    · rw [replace_cons_of_ne hb]
      have htail : a ∈ xs := (List.mem_cons.mp ha).resolve_left fun hab =>
        hb (congrArg key hab.symm)
      have hunique : Unique key xs := (List.nodup_cons.mp h).2
      rw [ih hunique htail]

/-- **What is found after a put.** -/
theorem find_put (h : Unique key xs) :
    find key k (put key a xs) = if k = key a then some a else find key k xs := by
  by_cases hk : k = key a
  · rw [if_pos hk, find_eq_some h.put]
    exact ⟨mem_put_self, hk.symm⟩
  · rw [if_neg hk]
    ext b
    rw [find_eq_some h.put, find_eq_some h]
    refine and_congr_left fun hkey => mem_put_of_ne ?_
    rw [hkey]
    exact hk

/-! ## Distinct elements -/

theorem nodup_eraseDups {α : Type*} [BEq α] [LawfulBEq α] : ∀ l : List α, l.eraseDups.Nodup
  | [] => by
    rw [List.eraseDups_nil]
    exact List.nodup_nil
  | a :: l => by
    rw [List.eraseDups_cons, List.nodup_cons]
    refine ⟨fun h => ?_, nodup_eraseDups _⟩
    have hmem := List.mem_filter.mp (List.mem_eraseDups.mp h)
    simp at hmem
  termination_by l => l.length
  decreasing_by exact Nat.lt_succ_of_le (List.length_filter_le _ _)

/-- Of a list of lists, the one element that gives any. -/
theorem flatMap_eq_of_unique {α β : Type*} {f : α → List β} {a : α} : ∀ {l : List α},
    l.Nodup → a ∈ l → (∀ b ∈ l, b ≠ a → f b = []) → l.flatMap f = f a
  | b :: l, hl, ha, hf => by
    rw [List.flatMap_cons]
    obtain ⟨hb, hl⟩ := List.nodup_cons.mp hl
    by_cases hba : b = a
    · subst hba
      have hnil : l.flatMap f = [] := by
        rw [List.flatMap_eq_nil_iff]
        intro c hc
        refine hf c (List.mem_cons_of_mem _ hc) ?_
        rintro rfl
        exact hb hc
      rw [hnil, List.append_nil]
    · have hal : a ∈ l := (List.mem_cons.mp ha).resolve_left (Ne.symm hba)
      rw [hf b List.mem_cons_self hba, List.nil_append]
      exact flatMap_eq_of_unique hl hal fun c hc => hf c (List.mem_cons_of_mem _ hc)

end Keyed
