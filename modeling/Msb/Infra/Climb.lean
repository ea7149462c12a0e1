import Mathlib

/-!
# Climbing along a partial function

A pointer that is followed from each node to its parent, as often as there is one. A climb that ends
meets no node twice, so it is no longer than the list of the nodes that have a parent.

* `climb_length_le`
-/

namespace Climb

variable {α : Type*} (f : α → Option α)

/-- The node after `k` steps. -/
def climb : ℕ → α → Option α
  | 0, a => some a
  | k + 1, a => (f a).bind (climb k)

variable {f} {a b : α} {j k m : ℕ}

theorem climb_succ_of_some (h : f a = some b) : climb f (k + 1) a = climb f k b := by
  rw [climb, h, Option.bind_some]

theorem climb_succ_of_none (h : f a = none) : climb f (k + 1) a = none := by
  rw [climb, h, Option.bind_none]

theorem climb_add : ∀ (j k : ℕ) (a : α), climb f (j + k) a = (climb f j a).bind (climb f k)
  | 0, k, a => by rw [Nat.zero_add, climb, Option.bind_some]
  | j + 1, k, a => by
    rw [Nat.add_right_comm]
    cases h : f a with
    | none => rw [climb_succ_of_none h, climb_succ_of_none h, Option.bind_none]
    | some b => rw [climb_succ_of_some h, climb_succ_of_some h, climb_add j k b]

theorem climb_succ_last (h : climb f k a = some b) : climb f (k + 1) a = f b := by
  rw [climb_add k 1 a, h, Option.bind_some]
  show (f b).bind some = f b
  cases f b <;> rfl

theorem climb_eq_none_of_le (h : climb f k a = none) (hle : k ≤ m) : climb f m a = none := by
  obtain ⟨d, rfl⟩ := Nat.exists_eq_add_of_le hle
  rw [climb_add, h, Option.bind_none]

/-- A node that is met again is met over and over. -/
theorem climb_ne_none_of_cycle (hj : 0 < j) (h : climb f j a = some a) (k : ℕ) :
    climb f k a ≠ none := by
  have hround : ∀ m, climb f (j * m) a = some a := by
    intro m
    induction m with
    | zero => rfl
    | succ m ih => rw [Nat.mul_succ, climb_add, ih, Option.bind_some, h]
  intro hnone
  have := climb_eq_none_of_le hnone (Nat.le_mul_of_pos_left k hj)
  rw [hround] at this
  cases this

/-- A climb that ends meets no node twice. -/
theorem climb_injective (hend : climb f m a = none) (hj : climb f j a = some b)
    (hk : climb f k a = some b) (hlt : j < k) : False := by
  obtain ⟨d, rfl⟩ := Nat.exists_eq_add_of_lt hlt
  have hcycle : climb f (d + 1) b = some b := by
    rw [Nat.add_assoc, climb_add, hj, Option.bind_some] at hk
    exact hk
  refine climb_ne_none_of_cycle (Nat.succ_pos d) hcycle m ?_
  have hlate : climb f (j + m) a = none := climb_eq_none_of_le hend (Nat.le_add_left m j)
  rwa [climb_add, hj, Option.bind_some] at hlate

/-- **A climb that ends is no longer than the list of the nodes with a parent.** -/
theorem climb_length_le {nodes : List α} (hnodes : ∀ c, (f c).isSome = true → c ∈ nodes)
    (hend : climb f m a = none) (hk : climb f k a = some b) : k ≤ nodes.length := by
  have hmet : ∀ i, i < k → ∃ c, climb f i a = some c ∧ c ∈ nodes := by
    intro i hi
    cases hc : climb f i a with
    | none =>
      rw [climb_eq_none_of_le hc hi.le] at hk
      cases hk
    | some c =>
      refine ⟨c, rfl, hnodes c (Option.isSome_iff_ne_none.mpr fun hnone => ?_)⟩
      have hnext := (climb_succ_last hc).trans hnone
      rw [climb_eq_none_of_le hnext hi] at hk
      cases hk
  have hnodup : ((List.range k).map fun i => (climb f i a).getD a).Nodup := by
    refine List.Nodup.map_on (fun i hi j hj heq => ?_) List.nodup_range
    obtain ⟨c, hc, -⟩ := hmet i (List.mem_range.mp hi)
    obtain ⟨d, hd, -⟩ := hmet j (List.mem_range.mp hj)
    obtain rfl : c = d := by simpa [hc, hd] using heq
    rcases Nat.lt_trichotomy i j with hlt | rfl | hlt
    · exact (climb_injective hend hc hd hlt).elim
    · rfl
    · exact (climb_injective hend hd hc hlt).elim
  have hsub : ((List.range k).map fun i => (climb f i a).getD a) ⊆ nodes := by
    intro c hc
    obtain ⟨i, hi, rfl⟩ := List.mem_map.mp hc
    obtain ⟨d, hd, hmem⟩ := hmet i (List.mem_range.mp hi)
    rwa [hd]
  have hle := (List.subperm_of_subset hnodup hsub).length_le
  rwa [List.length_map, List.length_range] at hle

end Climb
