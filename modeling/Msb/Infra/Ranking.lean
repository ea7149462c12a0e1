import Mathlib

/-!
# Rankings

A list by descending score, and the first of it. Where no two entries have one score a ranking does
not depend on the order of the list, and an entry is among the first `k` exactly where fewer than
`k` entries score higher.

* `take_ranked_append` — when the entries that are left out of a ranking do not matter
* `mem_take_ranked_middle` — which entries come first where scores may be equal
-/

namespace Ranking

variable {α β F : Type*} [LinearOrder F] {score : α → F} {l l' : List α} {x : α}

/-- The entries by descending score. Of two with one score the earlier one comes first. -/
def ranked (score : α → F) (l : List α) : List α :=
  l.mergeSort fun a b => decide (score b ≤ score a)

theorem ranked_perm (score : α → F) (l : List α) : (ranked score l).Perm l :=
  List.mergeSort_perm l _

theorem mem_ranked : x ∈ ranked score l ↔ x ∈ l := (ranked_perm score l).mem_iff

theorem ranked_map (f : α → β) (score : β → F) (l : List α) :
    (ranked (fun a => score (f a)) l).map f = ranked score (l.map f) :=
  List.map_mergeSort fun _ _ _ _ => rfl

theorem ranked_pairwise (score : α → F) (l : List α) :
    (ranked score l).Pairwise fun a b => score b ≤ score a := by
  have htrans : ∀ a b c : α, decide (score b ≤ score a) → decide (score c ≤ score b) →
      decide (score c ≤ score a) := by
    intro a b c hab hbc
    simp only [decide_eq_true_eq] at hab hbc ⊢
    exact hbc.trans hab
  have htotal : ∀ a b : α, decide (score b ≤ score a) || decide (score a ≤ score b) := by
    intro a b
    simpa using le_total (score b) (score a)
  exact (List.pairwise_mergeSort htrans htotal l).imp fun h => of_decide_eq_true h

/-! ## No two entries with one score -/

theorem ranked_strict (h : (l.map score).Nodup) :
    (ranked score l).Pairwise fun a b => score b < score a := by
  have hnodup : ((ranked score l).map score).Nodup :=
    ((ranked_perm score l).map score).nodup_iff.mpr h
  have hne : (ranked score l).Pairwise fun a b => score a ≠ score b := List.pairwise_map.mp hnodup
  exact ((ranked_pairwise score l).and hne).imp fun hab => lt_of_le_of_ne hab.1 hab.2.symm

/-- A list by strictly descending score is the ranking of its entries. -/
theorem eq_ranked (h : (l.map score).Nodup) (hperm : l'.Perm l)
    (hl' : l'.Pairwise fun a b => score b < score a) : l' = ranked score l := by
  refine List.Perm.eq_of_pairwise (fun a b _ _ hab hba => absurd hab hba.asymm) hl'
    (ranked_strict h) ?_
  exact hperm.trans (ranked_perm score l).symm

theorem ranked_eq_of_perm (h : (l.map score).Nodup) (hperm : l'.Perm l) :
    ranked score l' = ranked score l := by
  refine eq_ranked h ((ranked_perm score l').trans hperm) (ranked_strict ?_)
  exact (hperm.map score).nodup_iff.mpr h

theorem ranked_filter (h : (l.map score).Nodup) (p : α → Bool) :
    ranked score (l.filter p) = (ranked score l).filter p := by
  have hsub : ((l.filter p).map score).Nodup := h.sublist (List.filter_sublist.map score)
  exact (eq_ranked hsub ((ranked_perm score l).filter p) ((ranked_strict h).filter p)).symm

/-- In a list by strictly descending score, an entry is among the first `k` exactly where fewer than
`k` come before. -/
theorem mem_take_of_strict : ∀ {l : List α} {k : ℕ}, l.Pairwise (fun a b => score b < score a) →
    x ∈ l → (x ∈ l.take k ↔ (l.filter fun y => decide (score x < score y)).length < k)
  | [], _, _, hx => by cases hx
  | a :: l, k, hl, hx => by
    cases k with
    | zero => simp
    | succ k =>
      rw [List.take_succ_cons, List.mem_cons]
      rcases List.mem_cons.mp hx with rfl | hmem
      · -- nothing comes before the first entry
        have hnone : (x :: l).filter (fun y => decide (score x < score y)) = [] := by
          refine List.filter_eq_nil_iff.mpr fun y hy => ?_
          rcases List.mem_cons.mp hy with rfl | hy
          · simp
          · simpa using (List.rel_of_pairwise_cons hl hy).le
        simp [hnone]
      · have hlt : score x < score a := List.rel_of_pairwise_cons hl hmem
        have hne : x ≠ a := fun heq => lt_irrefl _ (heq ▸ hlt)
        rw [List.filter_cons_of_pos (by simpa using hlt), List.length_cons, Nat.succ_lt_succ_iff,
          or_iff_right hne]
        exact mem_take_of_strict hl.of_cons hmem

theorem mem_take_ranked (h : (l.map score).Nodup) {k : ℕ} (hx : x ∈ l) :
    x ∈ (ranked score l).take k ↔ (l.filter fun y => decide (score x < score y)).length < k := by
  rw [mem_take_of_strict (ranked_strict h) (mem_ranked.mpr hx),
    ((ranked_perm score l).filter _).length_eq]

/-- The first entries of a list are the first that meet `p`, if all of them do. -/
theorem take_filter_of_take {p : α → Bool} : ∀ {l : List α} {k : ℕ}, (∀ x ∈ l.take k, p x = true) →
    (l.filter p).take k = l.take k
  | [], _, _ => rfl
  | _ :: _, 0, _ => rfl
  | a :: l, k + 1, h => by
    rw [List.take_succ_cons] at h ⊢
    rw [List.filter_cons_of_pos (h a List.mem_cons_self), List.take_succ_cons,
      take_filter_of_take fun x hx => h x (List.mem_cons_of_mem _ hx)]

/-- **What is left out.** The first `k` of a part are the first `k` of the whole, exactly where `k`
entries of the whole score higher than any entry that is left out. -/
theorem take_ranked_append {part rest : List α} (h : ((part ++ rest).map score).Nodup) {k : ℕ} :
    (ranked score part).take k = (ranked score (part ++ rest)).take k ↔
      ∀ x ∈ rest, k ≤ ((part ++ rest).filter fun y => decide (score x < score y)).length := by
  have hapart : ∀ x ∈ rest, ∀ y ∈ part, score y ≠ score x := by
    rw [List.map_append, List.nodup_append] at h
    intro x hx y hy
    exact h.2.2 _ (List.mem_map_of_mem hy) _ (List.mem_map_of_mem hx)
  constructor
  · intro htake x hx
    by_contra hfew
    have hmem : x ∈ (ranked score (part ++ rest)).take k :=
      (mem_take_ranked h (List.mem_append_right _ hx)).mpr (not_le.mp hfew)
    rw [← htake] at hmem
    exact hapart x hx x (mem_ranked.mp (List.mem_of_mem_take hmem)) rfl
  · intro hrest
    -- an entry of the part is known by its score
    have hpart : (part ++ rest).filter (fun y => decide (score y ∈ part.map score)) = part := by
      rw [List.filter_append, List.filter_eq_self.mpr fun y hy =>
        decide_eq_true (List.mem_map_of_mem hy),
        List.filter_eq_nil_iff.mpr fun y hy => ?_, List.append_nil]
      intro hmem
      obtain ⟨z, hz, hzy⟩ := List.mem_map.mp (of_decide_eq_true hmem)
      exact hapart y hy z hz hzy
    rw [← congrArg (fun l => (ranked score l).take k) hpart, ranked_filter h]
    refine take_filter_of_take fun x hx => ?_
    have hxmem := mem_ranked.mp (List.mem_of_mem_take hx)
    rcases List.mem_append.mp hxmem with hxp | hxr
    · exact decide_eq_true (List.mem_map_of_mem hxp)
    · exact absurd ((mem_take_ranked h hxmem).mp hx) (not_lt.mpr (hrest x hxr))

/-! ## Ties -/

/-- The score of an entry with its place: of two with one score, the earlier one scores higher. -/
def placed (score : α → F) (p : α × ℕ) : F ×ₗ ℕᵒᵈ := toLex (score p.1, OrderDual.toDual p.2)

theorem placed_le {a b : α × ℕ} : placed score b ≤ placed score a ↔
    score b.1 < score a.1 ∨ score b.1 = score a.1 ∧ a.2 ≤ b.2 := by
  simp [placed, Prod.Lex.toLex_le_toLex]

theorem placed_lt {a b : α × ℕ} : placed score b < placed score a ↔
    score b.1 < score a.1 ∨ score b.1 = score a.1 ∧ a.2 < b.2 := by
  simp [placed, Prod.Lex.toLex_lt_toLex]

theorem ranked_zipIdx (score : α → F) (l : List α) :
    (ranked (placed score) l.zipIdx).map Prod.fst = ranked score l := by
  refine Eq.trans ?_ List.mergeSort_zipIdx
  unfold ranked
  congr 2
  funext a b
  rw [List.zipIdxLE]
  rcases lt_trichotomy (score b.1) (score a.1) with h | h | h
  · simp [placed_le, h, h.le, h.not_ge]
  · simp [placed_le, h]
  · simp [placed_le, h.not_ge, h.not_gt, h.ne']

omit [LinearOrder F] in
theorem placed_nodup (score : α → F) (l : List α) : (l.zipIdx.map (placed score)).Nodup := by
  refine List.Nodup.of_map (fun s => (ofLex s).2) ?_
  have hplace : (fun s : F ×ₗ ℕᵒᵈ => (ofLex s).2) ∘ placed score = OrderDual.toDual ∘ Prod.snd :=
    rfl
  rw [List.map_map, hplace, ← List.map_map, List.zipIdx_map_snd]
  exact List.Nodup.map OrderDual.toDual.injective List.nodup_range'

omit [LinearOrder F] in
theorem filter_zipIdx_length {n : ℕ} {P : α × ℕ → Prop} {Q : α → Prop} [DecidablePred P]
    [DecidablePred Q] (h : ∀ p ∈ l.zipIdx n, (P p ↔ Q p.1)) :
    ((l.zipIdx n).filter fun p => decide (P p)).length =
        (l.filter fun y => decide (Q y)).length := by
  have hfilter : ((l.zipIdx n).filter fun p => decide (P p)) = (l.zipIdx n).filter
      ((fun y => decide (Q y)) ∘ Prod.fst) :=
    List.filter_congr fun p hp => decide_eq_decide.mpr (h p hp)
  rw [hfilter, ← List.length_map Prod.fst, ← List.filter_map, List.zipIdx_map_fst]

/-- **What comes before an entry** in a ranking: the earlier ones with no lower score, and the later
ones with a higher one. -/
theorem mem_take_ranked_middle {earlier later : List α} {k : ℕ} (hearlier : x ∉ earlier)
    (hlater : x ∉ later) : x ∈ (ranked score (earlier ++ x :: later)).take k ↔
      (earlier.filter fun y => decide (score x ≤ score y)).length +
        (later.filter fun y => decide (score x < score y)).length < k := by
  have hplaces : (earlier ++ x :: later).zipIdx =
      earlier.zipIdx ++ (x, earlier.length) :: later.zipIdx (earlier.length + 1) := by
    simp [List.zipIdx_append]
  have hmem : x ∈ (ranked score (earlier ++ x :: later)).take k ↔
      (x, earlier.length) ∈ (ranked (placed score) (earlier ++ x :: later).zipIdx).take k := by
    rw [← ranked_zipIdx, ← List.map_take, List.mem_map]
    constructor
    · rintro ⟨⟨y, i⟩, hy, rfl⟩
      have hin := mem_ranked.mp (List.mem_of_mem_take hy)
      rw [hplaces, List.mem_append, List.mem_cons] at hin
      rcases hin with hin | hin | hin
      · exact absurd (List.fst_mem_of_mem_zipIdx hin) hearlier
      · rwa [← hin]
      · exact absurd (List.fst_mem_of_mem_zipIdx hin) hlater
    · exact fun h => ⟨_, h, rfl⟩
  -- a place before that of the entry wins a tie, one after it does not
  have hbefore :
    (earlier.zipIdx.filter fun p =>
      decide (placed score (x, earlier.length) < placed score p)).length =
      (earlier.filter fun y => decide (score x ≤ score y)).length := by
    refine filter_zipIdx_length fun p hp => ?_
    have hlt : p.2 < earlier.length := by simpa using List.snd_lt_of_mem_zipIdx hp
    rw [placed_lt, le_iff_lt_or_eq]
    simp [hlt]
  have hafter :
    ((later.zipIdx (earlier.length + 1)).filter fun p =>
      decide (placed score (x, earlier.length) < placed score p)).length =
      (later.filter fun y => decide (score x < score y)).length := by
    refine filter_zipIdx_length fun p hp => ?_
    have hle : earlier.length + 1 ≤ p.2 := List.le_snd_of_mem_zipIdx hp
    rw [placed_lt]
    have hnot : ¬p.2 < earlier.length := by omega
    simp [hnot]
  rw [hmem, mem_take_ranked (placed_nodup score _) (by rw [hplaces]; simp), hplaces,
    List.filter_append, List.length_append, List.filter_cons_of_neg (by simp), hbefore, hafter]

end Ranking
