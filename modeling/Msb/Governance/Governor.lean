import Msb.Governance.Approval

/-!
# The governor

`governance/governor.py`: a table of the newest signals, and the verdict that is read off it. Every
call inserts a row, deletes all rows but the newest, and selects them again.

* `OuroborosGovernor.advise` — `advise`
* `advise_action` — the verdict is the one that the whole history gives
-/

namespace Governance

open Py

/-! ## The table -/

/-- A row of `governor_runs`. -/
structure GovernorRow where
  seq : Nat
  proposalId : Str
  novelty : ℚ
  duplicateRatio : ℚ
  createdAt : Str
  deriving DecidableEq

/-- The table, and the last number that `AUTOINCREMENT` has given. -/
structure GovernorTable where
  rows : List GovernorRow
  lastSeq : Nat

def GovernorTable.init : GovernorTable := ⟨[], 0⟩

structure OuroborosGovernor where
  stallLimit : Int
  noveltyMin : ℚ
  dupRatioHalt : ℚ
  history : Int

/-- One call, with the clock and an error of the database. -/
structure AdviseCall where
  proposalId : Str
  novelty : ℚ
  duplicateRatio : ℚ
  now : Str
  failure : Option Str

/-- The verdict with the proposals to park. -/
structure Advice extends GovernorVerdict where
  trimCandidates : List Str

/-- How numbers are shown: `f"{x:.2f}"`, `str(x)`, and the number as a value. -/
structure GovernorTexts where
  fixed2 : ℚ → Str
  plain : ℚ → Str
  value : ℚ → PyVal

/-- `ORDER BY seq DESC LIMIT limit`: a negative limit is none. -/
def newest (limit : Int) (rows : List GovernorRow) : List GovernorRow :=
  let sorted := rows.mergeSort fun a b => decide (b.seq ≤ a.seq)
  if limit < 0 then sorted else sorted.take limit.toNat

def GovernorTable.insert (t : GovernorTable) (call : AdviseCall) : GovernorTable where
  rows := t.rows ++ [⟨t.lastSeq + 1, call.proposalId, call.novelty, call.duplicateRatio, call.now⟩]
  lastSeq := t.lastSeq + 1

/-- `DELETE ... WHERE seq NOT IN (SELECT ...)` -/
def GovernorTable.prune (t : GovernorTable) (history : Int) : GovernorTable :=
  { t with rows := t.rows.filter fun r => r.seq ∈ (newest history t.rows).map GovernorRow.seq }

/-! ## The verdict -/

namespace OuroborosGovernor

variable (g : OuroborosGovernor) (T : GovernorTexts)

/-- The loop that counts the stalled iterations. -/
def stallCount : List GovernorRow → Nat
  | [] => 0
  | r :: rows => if r.novelty < g.noveltyMin then stallCount rows + 1 else 0

/-- `sum(...) / n` -/
def mean (rows : List GovernorRow) (n : Nat) : ℚ := (rows.map GovernorRow.novelty).sum / n

def metrics (stall : Nat) (dupRatio : ℚ) (trend : String) : PyVal :=
  .dict [(.str (lit "stall_count"), .int stall), (.str (lit "dup_ratio"), T.value dupRatio),
    (.str (lit "trend"), .str (lit trend))]

/-- `advise` on the rows that were selected, the newest first. -/
def judge (proposalId : Str) (rows : List GovernorRow) : Except PyError Advice :=
  match rows with
  | [] => .error (.raised (lit "IndexError") (lit "list index out of range"))
  | r :: _ =>
    let stall := g.stallCount rows
    let dupRatio := r.duplicateRatio
    let trim :=
      (rows.filter fun r => g.dupRatioHalt ≤ r.duplicateRatio ∧ r.proposalId ≠ proposalId).map
      GovernorRow.proposalId
    if g.dupRatioHalt ≤ dupRatio then
      .ok ⟨⟨.halt, lit "duplicate ratio " ++ T.fixed2 dupRatio ++ lit " >= halt threshold " ++
        T.plain g.dupRatioHalt, metrics T stall dupRatio "n/a"⟩, trim⟩
    else if g.stallLimit ≤ stall then
      .ok ⟨⟨.halt, (intLit stall).text ++
        lit " consecutive stalled iterations below novelty floor " ++
        T.plain g.noveltyMin, metrics T stall dupRatio "flat"⟩, trim⟩
    else if 6 ≤ rows.length ∧
        mean (rows.take 3) (max (rows.take 3).length 1) < mean ((rows.drop 3).take 3) 3 then
      .ok ⟨⟨.slow, lit "novelty trending down — expansion outpacing convergence",
        metrics T stall dupRatio "declining"⟩, trim⟩
    else .ok ⟨⟨.ok, lit "converging within bounds", metrics T stall dupRatio "stable"⟩, trim⟩

/-- The verdict on a state that cannot be read. -/
def unreadable (exc : Str) : Advice :=
  ⟨⟨.halt, lit "governor state unreadable — fail-closed (" ++ exc ++ lit ")",
    .dict [(.str (lit "fail_closed"), .bool true)]⟩, []⟩

/-- `advise` -/
def advise (call : AdviseCall) (t : GovernorTable) : Except PyError Advice × GovernorTable :=
  match call.failure with
  | some exc => (.ok (unreadable exc), t)
  | none =>
    let kept := (t.insert call).prune g.history
    (g.judge T call.proposalId (newest g.history kept.rows), kept)

/-- The table after the calls. -/
def tableAfter (calls : List AdviseCall) : GovernorTable :=
  calls.foldl (fun t call => (g.advise T call t).2) .init

end OuroborosGovernor

/-! ## The rules on the whole history -/

structure Signal where
  novelty : ℚ
  duplicateRatio : ℚ

/-- The signals that were recorded, the newest first. -/
def signalsOf (calls : List AdviseCall) : List Signal :=
  ((calls.filter fun call => call.failure = none).map fun call =>
    ⟨call.novelty, call.duplicateRatio⟩).reverse

/-- At least so many of the newest novelties in a row lie below the floor. -/
def Stalled (floor : ℚ) (n : Int) (signals : List Signal) : Prop :=
  n ≤ signals.length ∧ ∀ s ∈ signals.take n.toNat, s.novelty < floor

/-- The newest three lie below the three before. -/
def Declining (signals : List Signal) : Prop :=
  6 ≤ signals.length ∧
    ((signals.take 3).map Signal.novelty).sum / 3 <
    (((signals.drop 3).take 3).map Signal.novelty).sum / 3

instance (floor : ℚ) (n : Int) (signals : List Signal) : Decidable (Stalled floor n signals) :=
  inferInstanceAs (Decidable (_ ∧ _))

instance (signals : List Signal) : Decidable (Declining signals) :=
  inferInstanceAs (Decidable (_ ∧ _))

/-- What the rules say of a history. -/
def ruled (g : OuroborosGovernor) (signals : List Signal) : GovernorAction :=
  if (∃ s ∈ signals.head?, g.dupRatioHalt ≤ s.duplicateRatio) ∨
    Stalled g.noveltyMin g.stallLimit signals then .halt
  else if Declining signals then .slow
  else .ok

/-! ## The table holds the newest rows -/

/-- Strictly from the newest to the oldest. -/
def Descending (rows : List GovernorRow) : Prop := rows.Pairwise fun a b => b.seq < a.seq

theorem newest_perm {rows sorted : List GovernorRow} {limit : Nat} (hperm : rows.Perm sorted)
    (hsorted : Descending sorted) : newest limit rows = sorted.take limit := by
  have htotal : ∀ a b : GovernorRow, (decide (b.seq ≤ a.seq) || decide (a.seq ≤ b.seq)) = true := by
    intro a b
    simpa using Nat.le_total b.seq a.seq
  have htrans : ∀ a b c : GovernorRow, decide (b.seq ≤ a.seq) = true →
    decide (c.seq ≤ b.seq) = true → decide (c.seq ≤ a.seq) = true := by
    intro a b c hab hbc
    rw [decide_eq_true_eq] at hab hbc ⊢
    omega
  have hmerge : rows.mergeSort (fun a b => decide (b.seq ≤ a.seq)) = sorted := by
    have hpw := List.pairwise_mergeSort htrans htotal rows
    have hself := (List.mergeSort_perm rows fun a b => decide (b.seq ≤ a.seq)).trans hperm
    -- two orders of the same rows: the numbers are distinct
    have hnd : (sorted.map GovernorRow.seq).Nodup := by
      rw [List.Nodup, List.pairwise_map]
      exact hsorted.imp fun h => by omega
    refine hself.eq_of_pairwise ?_ hpw (hsorted.imp fun h => by simpa using Nat.le_of_lt h)
    intro a b ha hb hab hba
    rw [decide_eq_true_eq] at hab hba
    exact List.inj_on_of_nodup_map hnd (hself.mem_iff.mp ha) hb (by omega)
  rw [newest, hmerge, if_neg (by omega), Int.toNat_natCast]

/-- The table holds the newest rows of a history, and gives numbers beyond them. -/
structure Holds (t : GovernorTable) (history : Nat) (rows : List GovernorRow) : Prop where
  perm : t.rows.Perm (rows.take history)
  descending : Descending rows
  fresh : ∀ r ∈ rows, r.seq ≤ t.lastSeq

/-- The row that a call inserts. -/
def rowOf (t : GovernorTable) (call : AdviseCall) : GovernorRow :=
  ⟨t.lastSeq + 1, call.proposalId, call.novelty, call.duplicateRatio, call.now⟩

variable {g : OuroborosGovernor} {T : GovernorTexts} {t : GovernorTable} {history : Nat}
  {rows : List GovernorRow} {call : AdviseCall}

theorem Holds.inserted (h : Holds t history rows) (call : AdviseCall) :
    (t.insert call).rows.Perm (rowOf t call :: rows.take history) ∧
    Descending (rowOf t call :: rows) := by
  constructor
  · show (t.rows ++ [rowOf t call]).Perm _
    exact (List.perm_append_singleton _ _).trans (h.perm.cons _)
  · refine List.pairwise_cons.mpr ⟨?_, h.descending⟩
    intro r hr
    show r.seq < t.lastSeq + 1
    exact Nat.lt_succ_of_le (h.fresh r hr)

theorem Descending.cons_take {r : GovernorRow} {rows : List GovernorRow}
    (h : Descending (r :: rows)) (n : Nat) : Descending (r :: rows.take n) :=
  h.sublist ((List.take_sublist n rows).cons_cons r)

theorem take_cons_take (r : GovernorRow) (rows : List GovernorRow) (n : Nat) :
    (r :: rows.take n).take n = (r :: rows).take n := by
  cases n with
  | zero => rfl
  | succ n => simp [List.take_take]

/-- What is selected of a table that a row was inserted into. -/
theorem Holds.newest_insert (h : Holds t history rows) :
    newest history (t.insert call).rows = (rowOf t call :: rows).take history := by
  obtain ⟨hperm, hdesc⟩ := h.inserted call
  rw [newest_perm hperm (hdesc.cons_take history), take_cons_take]

/-- The rows whose number is among the first ones are the first ones. -/
theorem Descending.filter_take {rows : List GovernorRow} (h : Descending rows) (n : Nat) :
    (rows.filter fun r => r.seq ∈ (rows.take n).map GovernorRow.seq) = rows.take n := by
  have hsplit : rows.take n ++ rows.drop n = rows := List.take_append_drop n rows
  have hlt : ∀ a ∈ rows.take n, ∀ b ∈ rows.drop n, b.seq < a.seq := by
    rw [Descending, ← hsplit, List.pairwise_append] at h
    exact h.2.2
  have hfirst : (rows.take n).filter (fun r => r.seq ∈ (rows.take n).map GovernorRow.seq) =
      rows.take n := by
    rw [List.filter_eq_self]
    intro r hr
    exact decide_eq_true (List.mem_map_of_mem hr)
  have hrest : (rows.drop n).filter (fun r => r.seq ∈ (rows.take n).map GovernorRow.seq) = [] := by
    rw [List.filter_eq_nil_iff]
    intro b hb hmem
    obtain ⟨a, ha, heq⟩ := List.mem_map.mp (of_decide_eq_true hmem)
    have := hlt a ha b hb
    omega
  conv_lhs => rw [← hsplit, List.filter_append]
  rw [hsplit, hfirst, hrest, List.append_nil]

/-- **An insertion and a deletion keep the newest rows.** -/
theorem Holds.prune (h : Holds t history rows) :
    Holds ((t.insert call).prune history) history (rowOf t call :: rows) where
  perm := by
    obtain ⟨hperm, hdesc⟩ := h.inserted call
    rw [GovernorTable.prune, h.newest_insert, ← take_cons_take]
    refine (hperm.filter _).trans ?_
    -- of the rows that are there, those whose number is selected are the selected ones
    rw [(hdesc.cons_take history).filter_take]
  descending := (h.inserted call).2
  fresh := by
    intro r hr
    rcases List.mem_cons.mp hr with rfl | hr
    · exact le_refl _
    · exact (h.fresh r hr).trans (Nat.le_succ _)

/-- The selection after the deletion. -/
theorem Holds.newest_eq (h : Holds t history rows) : newest history t.rows = rows.take history := by
  rw [newest_perm h.perm (h.descending.sublist (List.take_sublist _ _)), List.take_take, min_self]

/-! ## The rules see the newest rows only -/

def GovernorRow.signal (r : GovernorRow) : Signal := ⟨r.novelty, r.duplicateRatio⟩

theorem le_stallCount {n : Nat} :
    n ≤ g.stallCount rows ↔ Stalled g.noveltyMin n (rows.map GovernorRow.signal) := by
  rw [Stalled, Int.toNat_natCast, List.length_map, Nat.cast_le]
  induction rows generalizing n with
  | nil =>
    cases n with
    | zero => simp
    | succ n => simp [OuroborosGovernor.stallCount]
  | cons r rows ih =>
    cases n with
    | zero => simp
    | succ n =>
      rw [OuroborosGovernor.stallCount, List.map_cons, List.take_succ_cons, List.length_cons]
      by_cases hlow : r.novelty < g.noveltyMin
      · rw [if_pos hlow, Nat.add_le_add_iff_right, ih, List.forall_mem_cons]
        simp [GovernorRow.signal, hlow]
      · rw [if_neg hlow, List.forall_mem_cons]
        simp [GovernorRow.signal, hlow]

/-- So many rows are stalled, or none need be. -/
theorem stallLimit_le_stallCount :
    g.stallLimit ≤ g.stallCount rows ↔
    Stalled g.noveltyMin g.stallLimit (rows.map GovernorRow.signal) := by
  rcases Int.le_total 0 g.stallLimit with hpos | hneg
  · obtain ⟨n, hn⟩ := Int.eq_ofNat_of_zero_le hpos
    rw [hn, ← le_stallCount]
    exact Nat.cast_le
  · have hzero : g.stallLimit.toNat = 0 := Int.toNat_of_nonpos hneg
    rw [Stalled, hzero]
    simp only [List.take_zero, List.not_mem_nil, false_implies, implies_true, and_true]
    omega

theorem stalled_take {floor : ℚ} {n : Int} {history : Nat} (hn : n ≤ history)
    {signals : List Signal} : Stalled floor n (signals.take history) ↔ Stalled floor n signals := by
  have hmin : min n.toNat history = n.toNat := by omega
  rw [Stalled, Stalled, List.take_take, hmin, List.length_take]
  constructor
  · rintro ⟨hlen, hall⟩
    exact ⟨by omega, hall⟩
  · rintro ⟨hlen, hall⟩
    exact ⟨by omega, hall⟩

theorem declining_take {history : Nat} (hsix : 6 ≤ history) {signals : List Signal} :
    Declining (signals.take history) ↔ Declining signals := by
  rw [Declining, Declining, List.take_take, List.drop_take, List.take_take, List.length_take,
    min_eq_left (by omega : 3 ≤ history), min_eq_left (by omega : 3 ≤ history - 3)]
  constructor
  · rintro ⟨hlen, hlt⟩
    exact ⟨by omega, hlt⟩
  · rintro ⟨hlen, hlt⟩
    exact ⟨by omega, hlt⟩

/-- **The rules on the newest rows are the rules on all of them.** -/
theorem ruled_take {history : Nat} (hhistory : max g.stallLimit 6 ≤ history)
    (signals : List Signal) : ruled g (signals.take history) = ruled g signals := by
  have hsix : 6 ≤ history := by omega
  have hhead : (signals.take history).head? = signals.head? := by
    rw [List.head?_take, if_neg (by omega)]
  rw [ruled, ruled, hhead]
  simp only [stalled_take (show g.stallLimit ≤ history by omega), declining_take hsix]

/-- What the loop, the lengths and the slices of the code decide. -/
theorem judge_action {proposalId : Str} (hrows : rows ≠ []) :
    (g.judge T proposalId rows).map (·.action) = .ok (ruled g (rows.map GovernorRow.signal)) := by
  obtain ⟨r, rest, rfl⟩ := List.exists_cons_of_ne_nil hrows
  have hhead : (∃ s ∈ ((r :: rest).map GovernorRow.signal).head?, g.dupRatioHalt ≤ s.duplicateRatio)
      ↔ g.dupRatioHalt ≤ r.duplicateRatio := by
    simp [GovernorRow.signal]
  have hdeclining : (6 ≤ (r :: rest).length ∧
      OuroborosGovernor.mean ((r :: rest).take 3) (max ((r :: rest).take 3).length 1)
        < OuroborosGovernor.mean (((r :: rest).drop 3).take 3) 3)
      ↔ Declining ((r :: rest).map GovernorRow.signal) := by
    rw [Declining, List.length_map, ← List.map_take, ← List.map_drop, ← List.map_take, List.map_map,
      List.map_map]
    refine and_congr_right fun hlen => ?_
    -- the three newest are three
    have hthree : max ((r :: rest).take 3).length 1 = 3 := by
      rw [List.length_take]
      omega
    rw [hthree]
    exact Iff.rfl
  rw [OuroborosGovernor.judge, ruled]
  simp only [hhead, hdeclining, ← stallLimit_le_stallCount]
  by_cases hdup : g.dupRatioHalt ≤ r.duplicateRatio
  · rw [if_pos hdup, if_pos (.inl hdup)]
    rfl
  by_cases hstall : g.stallLimit ≤ g.stallCount (r :: rest)
  · rw [if_neg hdup, if_pos hstall, if_pos (.inr hstall)]
    rfl
  rw [if_neg hdup, if_neg hstall, if_neg (by tauto : ¬(_ ∨ _))]
  by_cases hdecl : Declining ((r :: rest).map GovernorRow.signal)
  · rw [if_pos hdecl, if_pos hdecl]
    rfl
  · rw [if_neg hdecl, if_neg hdecl]
    rfl

/-! ## Every run -/

theorem signalsOf_append (calls : List AdviseCall) (call : AdviseCall) :
    signalsOf (calls ++ [call])
      = if call.failure = none then ⟨call.novelty, call.duplicateRatio⟩ :: signalsOf calls
      else signalsOf calls := by
  by_cases hok : call.failure = none <;> simp [signalsOf, hok]

theorem tableAfter_append (calls : List AdviseCall) (call : AdviseCall) :
    g.tableAfter T (calls ++ [call]) = (g.advise T call (g.tableAfter T calls)).2 := by
  simp [OuroborosGovernor.tableAfter]

/-- After the calls the table holds the newest of the rows of all signals. -/
theorem tableAfter_holds (hhistory : g.history = history) (calls : List AdviseCall) :
    ∃ rows, Holds (g.tableAfter T calls) history rows ∧ rows.map GovernorRow.signal =
    signalsOf calls := by
  induction calls using List.reverseRecOn with
  | nil =>
    exact ⟨[], ⟨by simp [OuroborosGovernor.tableAfter, GovernorTable.init], .nil, by simp⟩, rfl⟩
  | append_singleton calls call ih =>
    obtain ⟨rows, hholds, hsignals⟩ := ih
    rw [tableAfter_append, signalsOf_append]
    cases hfail : call.failure with
    | some exc =>
      -- the transaction is undone
      refine ⟨rows, ?_, by rw [if_neg (by simp), hsignals]⟩
      rw [OuroborosGovernor.advise, hfail]
      exact hholds
    | none =>
      refine ⟨rowOf (g.tableAfter T calls) call :: rows, ?_, ?_⟩
      · rw [OuroborosGovernor.advise, hfail, hhistory]
        exact hholds.prune
      · rw [if_pos rfl, List.map_cons, hsignals]
        rfl

/-- **The bounded history loses nothing.** The governor answers after every run what the rules say
of all the signals of the run; a state that cannot be read halts. -/
theorem advise_action (g : OuroborosGovernor) (T : GovernorTexts)
    (hhistory : max g.stallLimit 6 ≤ g.history) (calls : List AdviseCall) (call : AdviseCall) :
    (g.advise T call (g.tableAfter T calls)).1.map (·.action)
      = .ok (if call.failure = none then ruled g (signalsOf (calls ++ [call])) else .halt) := by
  obtain ⟨history, hnat⟩ := Int.eq_ofNat_of_zero_le (show 0 ≤ g.history by omega)
  obtain ⟨rows, hholds, hsignals⟩ := tableAfter_holds (T := T) hnat calls
  rw [OuroborosGovernor.advise]
  cases hfail : call.failure with
  | some exc => rfl
  | none =>
    have hrows : newest g.history (((g.tableAfter T calls).insert call).prune g.history).rows
        = (rowOf (g.tableAfter T calls) call :: rows).take history := by
      rw [hnat, hholds.prune.newest_eq]
    have hnonempty : (rowOf (g.tableAfter T calls) call :: rows).take history ≠ [] := by
      rw [Ne, List.take_eq_nil_iff]
      simp only [reduceCtorEq, or_false]
      omega
    rw [signalsOf_append, if_pos hfail, if_pos rfl]
    show (g.judge T call.proposalId _).map (·.action) = _
    rw [hrows, judge_action hnonempty, List.map_take, ruled_take (by omega),
      List.map_cons, hsignals]
    rfl

/-- The default configuration. -/
def OuroborosGovernor.default : OuroborosGovernor := ⟨6, 1 / 20, 1 / 2, 20⟩

theorem advise_action_default :
    ((OuroborosGovernor.default.advise ⟨fun _ => [], fun _ => [], fun _ => .none⟩
      ⟨lit "p", 0, 0, lit "t", none⟩
      (OuroborosGovernor.default.tableAfter ⟨fun _ => [], fun _ => [], fun _ => .none⟩
        (List.replicate 5 ⟨lit "p", 0, 0, lit "t", none⟩))).1.map (·.action)) = .ok .halt := by
  rw [advise_action _ _ (by decide)]
  decide +kernel

end Governance
