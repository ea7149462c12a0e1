import Mathlib.Order.Lex
import Mathlib.Data.List.Lex
import Mathlib.Data.List.Sort
import Msb.Infra.Text

/-!
# The context builder

`fabric/context.py`: the text that a model is shown for a query, from a system prompt, the query,
the matches of a search and the label of a domain, within a budget of tokens. Four characters count
as a token, rounded down, and no text counts less than one.

The scores are the elements of any linear order.

* `firstCut_spec` — the first cut takes the first twenty of the matches that fit
* `enforce_spec` — what is dropped afterwards did not fit into the text
* `build_law` — when the budget holds, nothing is dropped without need, and the counts add up
-/

namespace Fabric

open Py

/-! ## Tokens -/

/-- `_tokens` -/
def tokens (text : Str) : ℕ := max 1 (text.length / 4)

/-- `"\n\n".join(p for p in parts if p)` -/
def joinParts (parts : List Str) : Str := (lit "\n\n").intercalate (parts.filter fun p => p ≠ [])

/-- `if c: parts.append(p)` -/
def partIf (c : Prop) [Decidable c] (p : Str) : List Str := if c then [p] else []

/-! ## The builder -/

/-- A match, with the defaults of what it leaves out: `label` is `str(m.get('source') or m.get('id')
or '?')`. -/
structure Match (F : Type) where
  id : Str
  label : Str
  text : Option Str
  score : F

variable {F : Type}

/-- `str(m.get("text", "")).strip()` -/
def Match.body (m : Match F) : Str := strip (m.text.getD [])

/-- The sort key is `(-score, id)`. -/
def ranksBefore [LinearOrder F] (a b : Match F) : Bool :=
  b.score < a.score ∨ (b.score = a.score ∧ a.id ≤ b.id)

/-- The matches with text, in their order. What is not a dict is `none`. -/
def ranked [LinearOrder F] (given : List (Option (Match F))) : List (Match F) :=
  ((given.filterMap fun m => m).filter fun m => m.body ≠ []).mergeSort ranksBefore

/-- The tokens of a match in the first cut. -/
def Match.cost (m : Match F) : ℕ := tokens m.body + 8

/-- What the first cut keeps, and how many it drops. It stops when it has kept twenty. -/
def firstCut (room : ℕ) (kept : List (Match F)) (used evicted : ℕ) : List (Match F) →
    List (Match F) × ℕ
  | [] => (kept, evicted)
  | m :: ms =>
    if room < used + m.cost then firstCut room kept used (evicted + 1) ms
    else if 20 ≤ (kept ++ [m]).length then (kept ++ [m], evicted)
    else firstCut room (kept ++ [m]) (used + m.cost) evicted ms

/-- The texts around the matches. -/
structure Frame where
  system : Str
  query : Str
  domain : Str

/-- `f"- [{source}] {text}"` -/
def Match.section (m : Match F) : Str := lit "- [" ++ m.label ++ lit "] " ++ m.body

/-- The text with the matches that are kept. -/
def Frame.text (f : Frame) (kept : List (Match F)) : Str :=
  joinParts (partIf (f.system ≠ []) f.system ++ partIf (f.query ≠ []) (lit "Query: " ++ f.query) ++
    partIf (kept ≠ []) (lit "Sources:\n" ++ (lit "\n").intercalate (kept.map Match.section)) ++
    partIf (f.domain ≠ []) (lit "Domain: " ++ f.domain))

/-- The last of the matches goes until the text fits, or none is left. -/
def enforce (budget : ℕ) (f : Frame) (kept : List (Match F)) (evicted : ℕ) : List (Match F) × ℕ :=
  if h : tokens (f.text kept) ≤ budget ∨ kept = [] then (kept, evicted)
  else enforce budget f kept.dropLast (evicted + 1)
  termination_by kept.length
  decreasing_by
    rw [not_or] at h
    rw [List.length_dropLast]
    exact Nat.sub_lt (List.length_pos_iff.mpr h.2) Nat.one_pos

structure Item (F : Type) where
  source : Str
  score : F

structure ContextLedger (F : Type) where
  budgetTokens : ℕ
  systemTokens : ℕ
  queryTokens : ℕ
  includedMatches : ℕ
  evictedMatches : ℕ
  truncated : Bool
  totalTokens : ℕ
  items : List (Item F)

structure BuiltContext (F : Type) where
  text : Str
  ledger : ContextLedger F

/-- The arguments of `build`. -/
structure BuildCall (F : Type) where
  query : Str
  given : List (Option (Match F))
  system : Option Str
  declareDomain : Option Str

namespace BuildCall

variable [LinearOrder F] (call : BuildCall F) (budget : ℕ)

def systemGiven : Str := call.system.getD []

/-- `_tokens("Query: ")` -/
def queryLabel : ℕ := tokens (lit "Query: ")

def reserved : ℕ := tokens call.systemGiven + tokens call.query + if call.query = [] then 0
    else queryLabel

/-- The tokens for the matches. -/
def room : ℕ := if budget ≤ call.reserved then 0 else budget - call.reserved

/-- Where the system prompt leaves nothing for the query it goes. A budget that is exceeded leaves 0
tokens here. -/
def systemFits : Prop := 0 < budget - tokens call.systemGiven - queryLabel

instance instDecidableSystemFits : Decidable (call.systemFits budget) :=
  inferInstanceAs (Decidable (0 < _))

/-- `q_budget` -/
def queryBudget : ℕ :=
  if call.systemFits budget then budget - tokens call.systemGiven - queryLabel
    else budget - queryLabel

/-- The system prompt and the query that are shown. -/
def frame : Frame :=
  if budget ≤ call.reserved then
    { system := if call.systemFits budget then call.systemGiven else []
      query :=
        if call.queryBudget budget < tokens call.query then
          call.query.take (call.queryBudget budget * 4)
        else call.query
      domain := call.declareDomain.getD [] }
  else ⟨call.systemGiven, call.query, call.declareDomain.getD []⟩

/-- The matches that are kept, and how many are counted as dropped. -/
def selection : List (Match F) × ℕ :=
  let cut := firstCut (call.room budget) [] 0 0 (ranked call.given)
  enforce budget (call.frame budget) cut.1 cut.2

/-- `ContextBuilder(budget_tokens=budget).build(...)` -/
def build : BuiltContext F :=
  let f := call.frame budget
  let kept := (call.selection budget).1
  let text := f.text kept
  ⟨text, {
    budgetTokens := budget
    systemTokens := if budget ≤ call.reserved ∧ ¬ call.systemFits budget then 0
      else tokens call.systemGiven
    queryTokens := tokens f.query
    includedMatches := kept.length
    evictedMatches := (call.selection budget).2
    truncated := f.query ≠ call.query
    totalTokens := tokens text
    items := kept.map fun m => ⟨m.label, m.score⟩ }⟩

end BuildCall

/-! ## Lengths -/

theorem tokens_mono {s t : Str} (h : s.length ≤ t.length) : tokens s ≤ tokens t := by
  unfold tokens
  omega

theorem length_intercalate (sep : Str) (parts : List Str) :
    (sep.intercalate parts).length = (parts.map fun p => p.length + sep.length).sum -
    sep.length := by
  induction parts with
  | nil => simp
  | cons p parts ih =>
    by_cases hnil : parts = []
    · simp [hnil]
    · have hsum : sep.length ≤ (parts.map fun p => p.length + sep.length).sum := by
        obtain ⟨q, parts, rfl⟩ := List.exists_cons_of_ne_nil hnil
        simp only [List.map_cons, List.sum_cons]
        omega
      rw [List.intercalate_cons_of_ne_nil hnil]
      simp only [List.length_append, ih, List.map_cons, List.sum_cons]
      omega

theorem joinParts_filter (parts : List Str) :
    joinParts (parts.filter fun p => p ≠ []) = joinParts parts := by
  unfold joinParts
  rw [List.filter_filter]
  simp only [Bool.and_self]

/-- Parts that are left out make a joined text shorter. -/
theorem length_joinParts_le {parts parts' : List Str} (h : parts.Sublist parts') :
    (joinParts parts).length ≤ (joinParts parts').length := by
  unfold joinParts
  rw [length_intercalate, length_intercalate]
  exact Nat.sub_le_sub_right (((h.filter _).map _).sum_le_sum fun _ _ => Nat.zero_le _) _

theorem Frame.length_text_nil (f : Frame) (kept : List (Match F)) :
    (f.text ([] : List (Match F))).length ≤ (f.text kept).length := by
  refine length_joinParts_le ?_
  refine List.Sublist.append (.append (.refl _) ?_) (.refl _)
  exact List.nil_sublist _

/-! ## The order -/

section

variable [LinearOrder F]

theorem ranksBefore_trans {a b c : Match F} (hab : ranksBefore a b = true)
    (hbc : ranksBefore b c = true) : ranksBefore a c = true := by
  unfold ranksBefore at *
  simp only [decide_eq_true_eq] at *
  rcases hab with hab | ⟨hab, hid⟩
  · rcases hbc with hbc | ⟨hbc, -⟩
    · exact Or.inl (hbc.trans hab)
    · exact Or.inl (hbc ▸ hab)
  · rcases hbc with hbc | ⟨hbc, hid'⟩
    · exact Or.inl (hab ▸ hbc)
    · exact Or.inr ⟨hbc.trans hab, le_trans hid hid'⟩

theorem ranksBefore_total (a b : Match F) : (ranksBefore a b || ranksBefore b a) = true := by
  unfold ranksBefore
  rw [Bool.or_eq_true, decide_eq_true_eq, decide_eq_true_eq]
  rcases lt_trichotomy a.score b.score with h | h | h
  · exact Or.inr (Or.inl h)
  · rcases le_total a.id b.id with hid | hid
    · exact Or.inl (Or.inr ⟨h.symm, hid⟩)
    · exact Or.inr (Or.inr ⟨h, hid⟩)
  · exact Or.inl (Or.inl h)

theorem ranked_pairwise (given : List (Option (Match F))) :
    (ranked given).Pairwise fun a b => ranksBefore a b = true :=
  List.pairwise_mergeSort
    (fun a b c (hab : ranksBefore a b = true) (hbc : ranksBefore b c = true) =>
      ranksBefore_trans hab hbc)
    ranksBefore_total _

end

/-! ## The first cut -/

/-- The matches that fit, the first ones first. -/
def fitting (room : ℕ) : ℕ → List (Match F) → List (Match F)
  | _, [] => []
  | used, m :: ms =>
    if room < used + m.cost then fitting room used ms else m :: fitting room (used + m.cost) ms

theorem fitting_sublist (room used : ℕ) (ms : List (Match F)) :
    (fitting room used ms).Sublist ms := by
  induction ms generalizing used with
  | nil => exact .refl _
  | cons m ms ih =>
    unfold fitting
    split
    · exact (ih used).cons m
    · exact (ih _).cons_cons m

theorem exists_seen (room : ℕ) {ms : List (Match F)} {used k : ℕ}
    (h : k < (fitting room used ms).length) :
    ∃ seen m behind, ms = seen ++ m :: behind ∧ (fitting room used seen).length = k := by
  induction ms generalizing used k with
  | nil => cases h
  | cons m ms ih =>
    by_cases hroom : room < used + m.cost
    · rw [fitting, if_pos hroom] at h
      obtain ⟨seen, m', behind, rfl, hlength⟩ := ih h
      exact ⟨m :: seen, m', behind, rfl, by rw [fitting, if_pos hroom, hlength]⟩
    · rw [fitting, if_neg hroom, List.length_cons] at h
      cases k with
      | zero => exact ⟨[], m, ms, rfl, rfl⟩
      | succ k =>
        obtain ⟨seen, m', behind, rfl, hlength⟩ := ih (Nat.lt_of_succ_lt_succ h)
        exact ⟨m :: seen, m', behind, rfl, by rw [fitting, if_neg hroom, List.length_cons, hlength]⟩

/-- **The first cut takes the first twenty of the matches that fit.** -/
theorem firstCut_spec (room : ℕ) (ms : List (Match F)) {kept : List (Match F)} (used evicted : ℕ)
    (hkept : kept.length < 20) :
    (firstCut room kept used evicted ms).1 = kept ++ (fitting room used ms).take
    (20 - kept.length) := by
  induction ms generalizing kept used evicted with
  | nil => simp [firstCut, fitting]
  | cons m ms ih =>
    unfold firstCut fitting
    split
    · exact ih used (evicted + 1) hkept
    · have hroom : 20 - kept.length = (20 - (kept.length + 1)) + 1 := by omega
      rw [hroom, List.take_succ_cons]
      split
      · rename_i hfull
        rw [List.length_append, List.length_singleton] at hfull
        have hnone : 20 - (kept.length + 1) = 0 := by omega
        rw [hnone, List.take_zero]
      · rename_i hfree
        rw [ih _ evicted (not_le.mp hfree), List.length_append, List.length_singleton,
          List.append_assoc]
        rfl

/-- The first cut counts each match that it comes to, and it comes to all of them unless some are
behind the twentieth that fits. -/
theorem firstCut_count (room : ℕ) (ms : List (Match F)) {kept : List (Match F)} (used evicted : ℕ)
    (hkept : kept.length < 20) :
    (firstCut room kept used evicted ms).1.length + (firstCut room kept used evicted ms).2 =
    kept.length + evicted + ms.length ↔
      ∀ seen behind, ms = seen ++ behind → kept.length + (fitting room used seen).length = 20 →
      behind = [] := by
  induction ms generalizing kept used evicted with
  | nil =>
    refine iff_of_true rfl fun seen behind hsplit _ => ?_
    exact (List.append_eq_nil_iff.mp hsplit.symm).2
  | cons m ms ih =>
    -- Where nothing has been seen, fewer than twenty are kept.
    have hcons :
      (∀ seen behind, m :: ms = seen ++ behind → kept.length + (fitting room used seen).length =
        20 → behind = []) ↔
        ∀ seen behind, ms = seen ++ behind → kept.length + (fitting room used (m :: seen)).length =
        20 → behind = [] := by
      constructor
      · exact fun h seen behind hsplit => h (m :: seen) behind (by rw [hsplit, List.cons_append])
      · intro h seen behind hsplit hlength
        cases seen with
        | nil => simp only [fitting, List.length_nil] at hlength; omega
        | cons m' seen =>
          rw [List.cons_append] at hsplit
          obtain ⟨rfl, htail⟩ := List.cons.inj hsplit
          exact h seen behind htail hlength
    rw [hcons]
    by_cases hroom : room < used + m.cost
    · simp only [firstCut, fitting, if_pos hroom, List.length_cons]
      rw [← ih used (evicted + 1) hkept]
      omega
    · simp only [firstCut, fitting, if_neg hroom, List.length_cons, List.length_append,
        List.length_nil]
      by_cases hfull : 20 ≤ kept.length + (0 + 1)
      · rw [if_pos hfull]
        constructor
        · intro hcount seen behind hsplit _
          have hnone : ms = [] := List.length_eq_zero_iff.mp (by simp at hcount; omega)
          rw [hnone] at hsplit
          exact (List.append_eq_nil_iff.mp hsplit.symm).2
        · intro h
          have hnone := h [] ms rfl (by simp [fitting]; omega)
          simp [hnone]
          omega
      · rw [if_neg hfull]
        have hfree : (kept ++ [m]).length < 20 := by
          rw [List.length_append, List.length_singleton]
          omega
        have hih := ih (used + m.cost) evicted hfree
        rw [List.length_append, List.length_singleton] at hih
        have hcount : kept.length + evicted + (ms.length + 1) =
          kept.length + 1 + evicted + ms.length := by omega
        rw [hcount]
        refine hih.trans (forall_congr' fun seen => forall_congr' fun behind => imp_congr_right
          fun _ => imp_congr_left ?_)
        omega

/-! ## What is dropped afterwards -/

/-- **What is dropped afterwards did not fit into the text**, and it is counted. -/
theorem enforce_spec (budget : ℕ) (f : Frame) (kept : List (Match F)) (evicted : ℕ) :
    ∃ n ≤ kept.length, enforce budget f kept evicted = (kept.take n, evicted + (kept.length - n)) ∧
      (∀ m, n < m → m ≤ kept.length → budget < tokens (f.text (kept.take m))) ∧
      (tokens (f.text (kept.take n)) ≤ budget ∨ n = 0) := by
  induction kept, evicted using enforce.induct budget f with
  | case1 kept evicted hstop =>
    unfold enforce
    rw [dif_pos hstop]
    refine ⟨kept.length, le_rfl, by simp, fun m hlt hle => by omega, ?_⟩
    rw [List.take_length]
    exact hstop.imp_right fun hnone => by rw [hnone, List.length_nil]
  | case2 kept evicted hgo ih =>
    obtain ⟨n, hn, heq, hdropped, hfits⟩ := ih
    rw [not_or, not_le] at hgo
    have hlength : kept.dropLast.length = kept.length - 1 := List.length_dropLast
    have hpos : 0 < kept.length := List.length_pos_iff.mpr hgo.2
    have htake : ∀ m ≤ kept.length - 1, kept.dropLast.take m = kept.take m := fun m hm => by
      rw [List.dropLast_eq_take, List.take_take, min_eq_left hm]
    rw [hlength] at hn heq hdropped
    refine ⟨n, by omega, ?_, fun m hlt hle => ?_, ?_⟩
    · unfold enforce
      rw [dif_neg (by rw [not_or, not_le]; exact hgo), heq, htake n hn]
      refine Prod.ext rfl ?_
      show evicted + 1 + (kept.length - 1 - n) = evicted + (kept.length - n)
      omega
    · rcases Nat.lt_or_ge m kept.length with hlt' | hge
      · rw [← htake m (by omega)]
        exact hdropped m hlt (by omega)
      · rw [List.take_of_length_le hge]
        exact hgo.1
    · rw [← htake n hn]
      exact hfits

/-! ## The law -/

section

variable [LinearOrder F]

/-- What a context is to be. -/
structure Kept (budget : ℕ) (call : BuildCall F) : Prop where
  within : tokens (call.build budget).text ≤ budget
  ordered : (call.selection budget).1.Pairwise fun a b => ranksBefore a b = true
  selected : ∃ n, (call.selection budget).1 =
    (fitting (call.room budget) 0 (ranked call.given)).take n ∧
    ∀ m, n < m → m ≤ (fitting (call.room budget) 0 (ranked call.given)).length →
      budget < tokens
      ((call.frame budget).text ((fitting (call.room budget) 0 (ranked call.given)).take m))
  counted : (call.build budget).ledger.includedMatches + (call.build budget).ledger.evictedMatches =
    (call.given.filterMap fun m => m).countP fun m => m.body ≠ []

variable (budget : ℕ) (call : BuildCall F)

theorem length_ranked (given : List (Option (Match F))) :
    (ranked given).length = (given.filterMap fun m => m).countP fun m => m.body ≠ [] := by
  unfold ranked
  rw [List.length_mergeSort, List.countP_eq_length_filter]

/-- What is selected, of the twenty that fit. -/
theorem selection_spec : ∃ n ≤ ((fitting (call.room budget) 0 (ranked call.given)).take 20).length,
    (call.selection budget).1 =
    ((fitting (call.room budget) 0 (ranked call.given)).take 20).take n ∧
    (call.selection budget).1.length + (call.selection budget).2 =
      (firstCut (call.room budget) [] 0 0 (ranked call.given)).1.length +
      (firstCut (call.room budget) [] 0 0 (ranked call.given)).2 ∧
    (∀ m, n < m → m ≤ ((fitting (call.room budget) 0 (ranked call.given)).take 20).length →
      budget < tokens
      ((call.frame budget).text
        (((fitting (call.room budget) 0 (ranked call.given)).take 20).take m))) ∧
    (tokens ((call.frame budget).text (call.selection budget).1) ≤ budget ∨
        (call.selection budget).1 = []) := by
  have hcut : (firstCut (call.room budget) [] 0 0 (ranked call.given)).1 = _ :=
    firstCut_spec (call.room budget) (ranked call.given) 0 0 (Nat.succ_pos 19)
  rw [List.nil_append, List.length_nil, Nat.sub_zero] at hcut
  obtain ⟨n, hn, heq, hdropped, hfits⟩ := enforce_spec budget (call.frame budget)
    (firstCut (call.room budget) [] 0 0 (ranked call.given)).1
    (firstCut (call.room budget) [] 0 0 (ranked call.given)).2
  have hselection : call.selection budget = _ := heq
  rw [← hcut]
  refine ⟨n, hn, by rw [hselection], ?_, hdropped, ?_⟩
  · rw [hselection, List.length_take, min_eq_left hn]
    omega
  · rw [hselection]
    exact hfits.imp_right fun hzero => by rw [hzero, List.take_zero]

/-- **When a context is within its budget, drops nothing without need and counts what it drops**:
its texts around the matches are within the budget, and no match is ranked behind the twentieth that
fits. -/
theorem build_law : Kept budget call ↔
    tokens ((call.frame budget).text ([] : List (Match F))) ≤ budget ∧
      ∀ seen behind, ranked call.given = seen ++ behind →
      (fitting (call.room budget) 0 seen).length = 20 → behind = [] := by
  obtain ⟨n, hn, hkept, hcount, hdropped, hfits⟩ := selection_spec budget call
  have hcut : (firstCut (call.room budget) [] 0 0 (ranked call.given)).1.length + _ = _ ↔ _ :=
    firstCut_count (call.room budget) (ranked call.given) 0 0 (Nat.succ_pos 19)
  simp only [List.length_nil, Nat.zero_add] at hcut
  constructor
  · intro h
    refine ⟨(tokens_mono ((call.frame budget).length_text_nil _)).trans h.within, hcut.mp ?_⟩
    rw [← hcount, length_ranked]
    exact h.counted
  · rintro ⟨hbase, hbehind⟩
    -- No more than twenty fit, so the cap has left out nothing.
    have htwenty : (fitting (call.room budget) 0 (ranked call.given)).length ≤ 20 := by
      by_contra hmore
      obtain ⟨seen, m, behind, hsplit, hlength⟩ := exists_seen (call.room budget) (not_le.mp hmore)
      cases hbehind seen (m :: behind) hsplit hlength
    rw [List.take_of_length_le htwenty] at hkept hdropped
    refine ⟨?_, ?_, ⟨n, hkept, hdropped⟩, ?_⟩
    · rcases hfits with hfits | hnone
      · exact hfits
      · show tokens ((call.frame budget).text (call.selection budget).1) ≤ budget
        rw [hnone]
        exact hbase
    · rw [hkept]
      exact (ranked_pairwise call.given).sublist
        ((List.take_sublist n _).trans (fitting_sublist _ _ _))
    · show (call.selection budget).1.length + (call.selection budget).2 = _
      rw [hcount, hcut.mpr hbehind, length_ranked]

end

/-- A system prompt of seven characters, and a query of twelve. -/
def shortCall : BuildCall ℕ := ⟨List.replicate 12 97, [], some (List.replicate 7 97), none⟩

/-- The system prompt is counted as one token, and with it the text has seven. -/
theorem budget_exceeded : ¬ Kept 5 shortCall := by
  intro h
  have hbase : tokens ((shortCall.frame 5).text ([] : List (Match ℕ))) ≤ 5 :=
    (tokens_mono ((shortCall.frame 5).length_text_nil _)).trans h.within
  revert hbase
  decide

end Fabric
