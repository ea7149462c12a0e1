import Mathlib

/-!
# Hash chains

A chain of entries, each carrying the hash of the entry before it. Nothing is said here about
what an entry is: an entry `a` links to `prev a`, is known by `hash a`, and the first one links
to the genesis value `g`. Where two entries of equal hash are related by `R`, and related
entries have equal links, a tip hash commits to the whole chain behind it.

* `forall₂_of_tip_eq` — two chains with one tip are entry-wise related, and of one length
* `exists_prefix_of_mem` — a chain whose tip is an entry of another chain is a prefix of it
-/

namespace HashChain

variable {α β : Type*} (prev hash : α → β)

/-- Every entry links to the entry before it, the first one to `g`. -/
def Linked : β → List α → Prop
  | _, [] => True
  | g, a :: as => prev a = g ∧ Linked (hash a) as

/-- The hash of the last entry, `g` for the empty chain. -/
def tip (g : β) (as : List α) : β := as.foldl (fun _ a => hash a) g

/-! ## Appending -/

@[simp] theorem linked_nil (g : β) : Linked prev hash g [] := trivial

@[simp] theorem linked_cons (g : β) (a : α) (as : List α) :
    Linked prev hash g (a :: as) ↔ prev a = g ∧ Linked prev hash (hash a) as := Iff.rfl

@[simp] theorem tip_nil (g : β) : tip hash g [] = g := rfl

@[simp] theorem tip_cons (g : β) (a : α) (as : List α) :
    tip hash g (a :: as) = tip hash (hash a) as := rfl

@[simp] theorem tip_append (g : β) (as bs : List α) :
    tip hash g (as ++ bs) = tip hash (tip hash g as) bs := List.foldl_append

theorem tip_concat (g : β) (as : List α) (a : α) : tip hash g (as ++ [a]) = hash a := by simp

theorem tip_eq_getLast? (g : β) (as : List α) : tip hash g as = (as.getLast?.map hash).getD g := by
  rcases List.eq_nil_or_concat as with rfl | ⟨bs, a, rfl⟩
  · rfl
  · simp

theorem linked_append (g : β) (as bs : List α) :
    Linked prev hash g (as ++ bs)
      ↔ Linked prev hash g as ∧ Linked prev hash (tip hash g as) bs := by
  induction as generalizing g with
  | nil => simp
  | cons a as ih => simp [ih, and_assoc]

theorem linked_concat (g : β) (as : List α) (a : α) :
    Linked prev hash g (as ++ [a]) ↔ Linked prev hash g as ∧ prev a = tip hash g as := by
  simp [linked_append]

/-- The tip is the genesis value or the hash of an entry. -/
theorem tip_mem (g : β) (as : List α) :
    tip hash g as = g ∧ as = [] ∨ ∃ a ∈ as, hash a = tip hash g as := by
  rcases List.eq_nil_or_concat as with rfl | ⟨bs, a, rfl⟩
  · exact Or.inl ⟨rfl, rfl⟩
  · exact Or.inr ⟨a, by simp, by simp⟩

/-! ## What the tip commits to -/

section

variable {prev hash} {R : α → α → Prop} {g : β}

/-- **One tip, one chain.** No entry may hash to the genesis value: else a chain could end where
another one begins. -/
theorem forall₂_of_tip_eq (hR : ∀ a b, R a b → prev a = prev b) {as bs : List α}
    (hcol : ∀ a ∈ as, ∀ b ∈ bs, hash a = hash b → R a b) (hga : ∀ a ∈ as, hash a ≠ g)
    (hgb : ∀ b ∈ bs, hash b ≠ g) (ha : Linked prev hash g as) (hb : Linked prev hash g bs)
    (htip : tip hash g as = tip hash g bs) : List.Forall₂ R as bs := by
  induction as using List.reverseRecOn generalizing bs with
  | nil =>
    rcases List.eq_nil_or_concat bs with rfl | ⟨bs', b, rfl⟩
    · exact .nil
    · rw [tip_nil, List.concat_eq_append, tip_concat] at htip
      exact absurd htip.symm (hgb b (by simp))
  | append_singleton as a ih =>
    rcases List.eq_nil_or_concat bs with rfl | ⟨bs', b, rfl⟩
    · rw [tip_nil, tip_concat] at htip
      exact absurd htip (hga a (by simp))
    · rw [List.concat_eq_append] at *
      rw [tip_concat, tip_concat] at htip
      rw [linked_concat] at ha hb
      have hab : R a b := hcol a (by simp) b (by simp) htip
      have htip' : tip hash g as = tip hash g bs' := by rw [← ha.2, ← hb.2, hR a b hab]
      have hinit : List.Forall₂ R as bs' := by
        refine ih ?_ ?_ ?_ ha.1 hb.1 htip'
        · intro x hx y hy
          exact hcol x (List.mem_append_left _ hx) y (List.mem_append_left _ hy)
        · exact fun x hx => hga x (List.mem_append_left _ hx)
        · exact fun y hy => hgb y (List.mem_append_left _ hy)
      exact List.rel_append hinit (.cons hab .nil)

/-- **A chain whose tip is an entry of another chain is a prefix of it.** -/
theorem exists_prefix_of_mem (hR : ∀ a b, R a b → prev a = prev b) {as bs : List α}
    (hcol : ∀ a ∈ as, ∀ b ∈ bs, hash a = hash b → R a b) (hga : ∀ a ∈ as, hash a ≠ g)
    (hgb : ∀ b ∈ bs, hash b ≠ g) (ha : Linked prev hash g as) (hb : Linked prev hash g bs)
    {b : α} (hmem : b ∈ bs) (htip : hash b = tip hash g as) :
    ∃ cs ds, bs = cs ++ ds ∧ List.Forall₂ R as cs := by
  obtain ⟨cs, ds, rfl⟩ := List.append_of_mem hmem
  have hsplit : cs ++ b :: ds = (cs ++ [b]) ++ ds := by simp
  rw [hsplit] at hb
  refine ⟨cs ++ [b], ds, hsplit, ?_⟩
  have hsub : ∀ x ∈ cs ++ [b], x ∈ cs ++ b :: ds := fun x hx => by
    rw [hsplit]
    exact List.mem_append_left _ hx
  refine forall₂_of_tip_eq hR (fun x hx y hy => hcol x hx y (hsub y hy)) hga
    (fun y hy => hgb y (hsub y hy)) ha ((linked_append _ _ _ _ _).mp hb).1 ?_
  rw [tip_concat, htip]

end

end HashChain
