import Msb.Governance.Budget

/-!
# The cap of the rolling window

Any number of processes spend from one table, one transaction after the other. The counter of a
category covers the period that runs, and the units of the periods before it are forgotten when it
is over, so more than the cap may be granted around the end of a period.

* `rollingCap_iff` — the runs in which no window holds more than the cap
* `rollingCap_exceeded` — a run with almost twice the cap in one window
-/

namespace Governance

open Py Machine

/-! ## Runs of spends -/

/-- Units for which `spend` answered `True`, with the reading by which the ledger counted them. -/
structure Grant where
  time : ℚ
  amount : Nat

/-- The table, the clock, and what was granted: in the periods that are over, and in the one that
runs. -/
structure SpendState where
  table : BudgetTable
  clock : ℚ
  earlier : Str → List Grant
  current : Str → List Grant

/-- A call: how long after the call before it the clock is read, and how long after that once more.
-/
structure SpendCall where
  category : Str
  amount : Nat
  wait : ℚ≥0
  gap : ℚ≥0
  failure : Option PyError

def SpendCall.env (call : SpendCall) (s : SpendState) : SpendEnv where
  readAt := s.clock + call.wait
  insertAt := s.clock + call.wait + call.gap
  failure := call.failure

def SpendState.granted (s : SpendState) (category : Str) : List Grant :=
  s.earlier category ++ s.current category

def SpendState.init (clock : ℚ) : SpendState := ⟨fun _ => none, clock, fun _ => [], fun _ => []⟩

namespace BudgetLedger

variable (ledger : BudgetLedger)

/-- The row that the call finds. -/
def found (s : SpendState) (call : SpendCall) : Option BudgetRow :=
  ledger.row s.table (call.env s).readAt call.category

/-- The grant of a call. A new period begins at the second reading. -/
def grant (s : SpendState) (call : SpendCall) : Grant where
  time := if (ledger.found s call).isSome then (call.env s).readAt else (call.env s).insertAt
  amount := call.amount

/-- The grants of the periods that are over for the call. -/
def past (s : SpendState) (call : SpendCall) : List Grant :=
  if (ledger.found s call).isSome then s.earlier call.category else s.granted call.category

/-- The grants of the period of the call. -/
def running (s : SpendState) (call : SpendCall) : List Grant :=
  if (ledger.found s call).isSome then s.current call.category else []

def spendStep (s : SpendState) (call : SpendCall) : Option SpendState :=
  match ledger.spend (call.env s) call.category call.amount s.table with
  | (.ok true, t) =>
    some
      { table := t
        clock := (call.env s).insertAt
        earlier := Function.update s.earlier call.category (ledger.past s call)
        current := Function.update s.current call.category
          (ledger.running s call ++ [ledger.grant s call]) }
  | (_, t) => some { s with table := t, clock := (call.env s).insertAt }

end BudgetLedger

/-- The units of the grants that meet a condition. -/
def units (p : Grant → Prop) [DecidablePred p] (grants : List Grant) : Nat :=
  ((grants.filter fun g => p g).map Grant.amount).sum

/-- **No interval of the length of the window holds more than the cap**: the intervals `(y - window,
y]`. -/
def RollingCap (ledger : BudgetLedger) (s : SpendState) : Prop :=
  ∀ category, 0 < ledger.limit category → ∀ y : ℚ,
    (units (fun g => y - ledger.window < g.time ∧ g.time ≤ y) (s.granted category) : Int) ≤
    ledger.limit category

/-- The units of the periods that are over, and less than a window ago. -/
def BudgetLedger.leftover (ledger : BudgetLedger) (s : SpendState) (call : SpendCall) : Nat :=
  units (fun g => (ledger.grant s call).time - ledger.window < g.time) (ledger.past s call)

/-- The counter that the call finds. -/
def BudgetLedger.counter (ledger : BudgetLedger) (s : SpendState) (call : SpendCall) : Int :=
  ((ledger.found s call).map BudgetRow.spent).getD 0

/-- A call that the counter lets through finds room for the units that the counter has forgotten. -/
def Room (ledger : BudgetLedger) (s : SpendState) (call : SpendCall) : Prop :=
  0 < ledger.limit call.category → ledger.Fits (call.env s) call.category call.amount s.table →
    call.failure = none →
    ledger.leftover s call + ledger.counter s call + call.amount ≤ ledger.limit call.category

variable {ledger : BudgetLedger} {s s' : SpendState} {call : SpendCall}

/-! ## Units -/

section Units

variable {p q : Grant → Prop} [DecidablePred p] [DecidablePred q]

theorem units_append (gs hs : List Grant) : units p (gs ++ hs) = units p gs + units p hs := by
  simp [units]

variable {gs : List Grant}

theorem units_congr (h : ∀ g ∈ gs, p g ↔ q g) : units p gs = units q gs := by
  rw [units, units, List.filter_congr fun g hg => decide_eq_decide.mpr (h g hg)]

theorem units_cons (g : Grant) (gs : List Grant) :
    units p (g :: gs) = (if p g then g.amount else 0) + units p gs := by
  by_cases hp : p g
  · simp [units, hp]
  · simp [units, hp]

theorem units_mono (h : ∀ g ∈ gs, p g → q g) : units p gs ≤ units q gs := by
  induction gs with
  | nil => exact le_refl _
  | cons g gs ih =>
    have htail := ih fun x hx => h x (List.mem_cons_of_mem _ hx)
    have hhead := h g List.mem_cons_self
    rw [units_cons, units_cons]
    by_cases hp : p g
    · rw [if_pos hp, if_pos (hhead hp)]
      omega
    · rw [if_neg hp]
      omega

theorem units_true (h : ∀ g ∈ gs, p g) : units p gs = (gs.map Grant.amount).sum := by
  rw [units, List.filter_eq_self.mpr fun g hg => decide_eq_true (h g hg)]

theorem units_false (h : ∀ g ∈ gs, ¬ p g) : units p gs = 0 := by
  rw [units, List.filter_eq_nil_iff.mpr fun g hg => by simpa using h g hg]
  rfl

theorem units_le (gs : List Grant) : units p gs ≤ (gs.map Grant.amount).sum := by
  rw [← units_true (p := fun _ => True) fun _ _ => trivial]
  exact units_mono fun _ _ _ => trivial

end Units

/-! ## The counter covers the period that runs -/

/-- A row is the counter of these grants: their sum, begun before any of them. -/
structure Covers (row : BudgetRow) (grants : List Grant) (clock : ℚ) : Prop where
  spent : row.spent = (grants.map Grant.amount).sum
  begun : row.periodStart ≤ clock
  start : ∀ g ∈ grants, row.periodStart ≤ g.time

/-- The row of a category with a cap is the counter of the period that runs. -/
structure Counted (ledger : BudgetLedger) (s : SpendState) : Prop where
  past : ∀ category, ∀ g ∈ s.granted category, g.time ≤ s.clock
  covers : ∀ category, 0 < ledger.limit category → ∀ row ∈ s.table category,
    Covers row (s.current category) s.clock

theorem counted_init (clock : ℚ) : Counted ledger (.init clock) where
  past category g hg := absurd hg List.not_mem_nil
  covers category _ row hrow := by cases hrow

theorem Covers.later {row : BudgetRow} {grants : List Grant} {clock clock' : ℚ}
    (h : Covers row grants clock) (hle : clock ≤ clock') : Covers row grants clock' :=
  ⟨h.spent, h.begun.trans hle, h.start⟩

theorem SpendCall.clock_le (call : SpendCall) (s : SpendState) : s.clock ≤ (call.env s).readAt := by
  show s.clock ≤ s.clock + call.wait
  have : (0 : ℚ) ≤ call.wait := call.wait.2
  linarith

theorem SpendCall.readAt_le (call : SpendCall) (s : SpendState) :
    (call.env s).readAt ≤ (call.env s).insertAt := by
  show s.clock + (call.wait : ℚ) ≤ s.clock + call.wait + call.gap
  have : (0 : ℚ) ≤ call.gap := call.gap.2
  linarith

theorem grant_time (ledger : BudgetLedger) (s : SpendState) (call : SpendCall) :
    s.clock ≤ (ledger.grant s call).time ∧ (ledger.grant s call).time ≤ (call.env s).insertAt := by
  have hclock := call.clock_le s
  have hread := call.readAt_le s
  unfold BudgetLedger.grant
  dsimp only
  split_ifs
  · exact ⟨hclock, hread⟩
  · exact ⟨hclock.trans hread, le_refl _⟩

/-- What a call finds is a row whose period lasts. -/
theorem found_eq_some {row : BudgetRow} (h : ledger.found s call = some row) :
    s.table call.category = some row ∧ (call.env s).readAt - row.periodStart < ledger.window := by
  obtain ⟨hrow, hlasts⟩ := Option.filter_eq_some_iff.mp h
  exact ⟨hrow, lt_of_not_ge (of_decide_eq_true hlasts)⟩

/-- The grants of a call's own period, and of those before it. -/
theorem past_append_running (ledger : BudgetLedger) (s : SpendState) (call : SpendCall) :
    ledger.past s call ++ ledger.running s call = s.granted call.category := by
  unfold BudgetLedger.past BudgetLedger.running
  split_ifs
  · rfl
  · exact List.append_nil _

/-- The state after a call whose units are granted. -/
def BudgetLedger.after (ledger : BudgetLedger) (s : SpendState) (call : SpendCall) (t : BudgetTable)
    : SpendState where
  table := t
  clock := (call.env s).insertAt
  earlier := Function.update s.earlier call.category (ledger.past s call)
  current := Function.update s.current call.category
    (ledger.running s call ++ [ledger.grant s call])

/-- **What a call does**: it leaves the table as it is, or grants its units. -/
theorem spendStep_cases (ledger : BudgetLedger) (s : SpendState) (call : SpendCall) :
    (¬ ledger.Grants (call.env s) call.category call.amount s.table ∧
      ledger.spendStep s call = some { s with clock := (call.env s).insertAt }) ∨
    (ledger.limit call.category < 0 ∧
      ledger.spendStep s call = some (ledger.after s call s.table)) ∨
    (0 < ledger.limit call.category ∧ ledger.Fits (call.env s) call.category call.amount s.table ∧
      call.failure = none ∧
      ledger.spendStep s call = some (ledger.after s call (Function.update s.table call.category
        (some (ledger.charged (call.env s) call.category call.amount s.table))))) := by
  unfold BudgetLedger.spendStep
  rcases spend_cases ledger (call.env s) call.category call.amount s.table with
    ⟨hneg, h⟩ | ⟨hnot, answer, hanswer, h⟩ | ⟨hpos, hfits, hok, h⟩
  · right; left
    exact ⟨hneg, by rw [h]; rfl⟩
  · left
    refine ⟨hnot, ?_⟩
    rw [h]
    cases answer with
    | error e => rfl
    | ok granted =>
      cases granted with
      | false => rfl
      | true => exact absurd rfl hanswer
  · right; right
    exact ⟨hpos, hfits, hok, by rw [h]; rfl⟩

theorem Counted.counter_eq (h : Counted ledger s) (hcap : 0 < ledger.limit call.category) :
    ledger.counter s call = ((ledger.running s call).map Grant.amount).sum := by
  unfold BudgetLedger.counter BudgetLedger.running
  cases hfound : ledger.found s call with
  | none => rfl
  | some row => exact (h.covers _ hcap row (found_eq_some hfound).1).spent

/-- The grants of the period that lasts are less than a window old. -/
theorem Counted.running_lasts (h : Counted ledger s) (hcap : 0 < ledger.limit call.category) :
    ∀ g ∈ ledger.running s call, (ledger.grant s call).time - ledger.window < g.time := by
  unfold BudgetLedger.running BudgetLedger.grant
  cases hfound : ledger.found s call with
  | none => exact fun g hg => absurd hg List.not_mem_nil
  | some row =>
    intro g hg
    obtain ⟨hrow, hlasts⟩ := found_eq_some hfound
    have hstart := (h.covers _ hcap row hrow).start g hg
    simp only [Option.isSome_some, if_true]
    linarith

/-- The row that is charged for the call. -/
theorem charged_eq (ledger : BudgetLedger) (s : SpendState) (call : SpendCall) :
    (ledger.charged (call.env s) call.category call.amount s.table).spent =
    ledger.counter s call + call.amount ∧ (∀ row ∈ ledger.found s call,
        (ledger.charged (call.env s) call.category call.amount s.table).periodStart =
        row.periodStart) ∧
      (ledger.found s call = none →
        (ledger.charged (call.env s) call.category call.amount s.table).periodStart =
        (call.env s).insertAt) := by
  unfold BudgetLedger.charged BudgetLedger.counter BudgetLedger.found
  cases ledger.row s.table (call.env s).readAt call.category with
  | none => exact ⟨(zero_add _).symm, by simp, fun _ => rfl⟩
  | some row => exact ⟨rfl, by simp, by simp⟩

/-- What was granted after a call. -/
theorem after_granted (t : BudgetTable) (category : Str) :
    (ledger.after s call t).granted category
      = if category = call.category then s.granted category ++ [ledger.grant s call]
      else s.granted category := by
  unfold SpendState.granted BudgetLedger.after
  dsimp only
  by_cases hc : category = call.category
  · rw [if_pos hc, hc, Function.update_self, Function.update_self, ← List.append_assoc,
      past_append_running]
    rfl
  · rw [if_neg hc, Function.update_of_ne hc, Function.update_of_ne hc]

theorem Counted.past_after (h : Counted ledger s) (t : BudgetTable) (category : Str) :
    ∀ g ∈ (ledger.after s call t).granted category, g.time ≤ (ledger.after s call t).clock := by
  obtain ⟨hlow, hhigh⟩ := grant_time ledger s call
  have hold : ∀ g ∈ s.granted category, g.time ≤ (call.env s).insertAt := by
    intro g hg
    exact (h.past category g hg).trans (hlow.trans hhigh)
  intro g hg
  rw [after_granted] at hg
  split_ifs at hg
  · rcases List.mem_append.mp hg with hg | hg
    · exact hold g hg
    · rw [List.mem_singleton.mp hg]
      exact hhigh
  · exact hold g hg

/-- The row that is charged is the counter of the call's period. -/
theorem Counted.covers_charged (h : Counted ledger s) (hcap : 0 < ledger.limit call.category) :
    Covers (ledger.charged (call.env s) call.category call.amount s.table)
      (ledger.running s call ++ [ledger.grant s call]) (call.env s).insertAt := by
  obtain ⟨hspent, hlive, hnew⟩ := charged_eq ledger s call
  have hclock := call.clock_le s
  have hread := call.readAt_le s
  have htotal : (ledger.charged (call.env s) call.category call.amount s.table).spent
      = ((ledger.running s call ++ [ledger.grant s call]).map Grant.amount).sum := by
    rw [hspent, h.counter_eq hcap, List.map_append, List.sum_append]
    rfl
  unfold BudgetLedger.running BudgetLedger.grant at htotal ⊢
  cases hfound : ledger.found s call with
  | none =>
    -- the period begins with the call
    rw [hfound] at htotal
    refine ⟨htotal, (hnew hfound).le, fun g hg => ?_⟩
    rw [hnew hfound, List.mem_singleton.mp hg]
    exact le_refl _
  | some row =>
    have hrow := h.covers _ hcap row (found_eq_some hfound).1
    rw [hfound] at htotal
    refine ⟨htotal, ?_, fun g hg => ?_⟩
    · rw [hlive row hfound]
      exact hrow.begun.trans (hclock.trans hread)
    · rw [hlive row hfound]
      rcases List.mem_append.mp hg with hg | hg
      · exact hrow.start g hg
      · rw [List.mem_singleton.mp hg]
        exact hrow.begun.trans hclock

/-- **A call keeps the counter.** -/
theorem Counted.step (h : Counted ledger s) (hstep : ledger.spendStep s call = some s') :
    Counted ledger s' := by
  have hlater : ∀ category, 0 < ledger.limit category → ∀ row ∈ s.table category,
      Covers row (s.current category) (call.env s).insertAt := fun category hcap row hrow =>
    (h.covers category hcap row hrow).later ((call.clock_le s).trans (call.readAt_le s))
  rcases spendStep_cases ledger s call with ⟨-, heq⟩ | ⟨hneg, heq⟩ | ⟨hpos, hfits, hok, heq⟩
  · obtain rfl := Option.some.inj (heq.symm.trans hstep)
    refine ⟨fun category g hg => ?_, hlater⟩
    exact (h.past category g hg).trans ((call.clock_le s).trans (call.readAt_le s))
  · -- a category without a cap has no counter
    obtain rfl := Option.some.inj (heq.symm.trans hstep)
    refine ⟨h.past_after _, fun category hcap row hrow => ?_⟩
    have hne : category ≠ call.category := by
      rintro rfl
      omega
    show Covers row (Function.update s.current call.category _ category) _
    rw [Function.update_of_ne hne]
    exact hlater category hcap row hrow
  · obtain rfl := Option.some.inj (heq.symm.trans hstep)
    refine ⟨h.past_after _, fun category hcap row hrow => ?_⟩
    show Covers row (Function.update s.current call.category _ category) _
    change Function.update s.table call.category _ category = some row at hrow
    by_cases hc : category = call.category
    · rw [hc, Function.update_self] at hrow ⊢
      rw [← Option.some.inj hrow]
      exact h.covers_charged hpos
    · rw [Function.update_of_ne hc] at hrow ⊢
      exact hlater category hcap row hrow

/-! ## Windows -/

/-- The window that ends with a call: what is left over, the counter, and the units of the call. -/
theorem Counted.window_eq (h : Counted ledger s) (hcap : 0 < ledger.limit call.category) :
    (units (fun g => (ledger.grant s call).time - ledger.window < g.time)
      (s.granted call.category) : Int) = ledger.leftover s call + ledger.counter s call := by
  rw [← past_append_running ledger s call, units_append, units_true (h.running_lasts hcap),
    h.counter_eq hcap, BudgetLedger.leftover]
  push_cast
  rfl

/-- **Which calls keep the cap of every window.** -/
theorem rollingCap_step_iff (h : Counted ledger s) (hroll : RollingCap ledger s)
    (hstep : ledger.spendStep s call = some s') : RollingCap ledger s' ↔ Room ledger s call := by
  rcases spendStep_cases ledger s call with ⟨hnot, heq⟩ | ⟨hneg, heq⟩ | ⟨hpos, hfits, hok, heq⟩
  · obtain rfl := Option.some.inj (heq.symm.trans hstep)
    exact iff_of_true hroll fun hcap hfits hok => absurd (.inr ⟨hcap, hfits, hok⟩) hnot
  · obtain rfl := Option.some.inj (heq.symm.trans hstep)
    -- a category without a cap: what is granted counts in no capped one
    refine iff_of_true (fun category hcap y => ?_) fun hcap => by omega
    have hne : category ≠ call.category := by
      rintro rfl
      omega
    rw [after_granted, if_neg hne]
    exact hroll category hcap y
  · obtain rfl := Option.some.inj (heq.symm.trans hstep)
    have hwindow := h.window_eq hpos
    obtain ⟨htime, -⟩ := grant_time ledger s call
    constructor
    · intro hafter _ _ _
      have hlast := hafter call.category hpos (ledger.grant s call).time
      rw [after_granted, if_pos rfl, units_append] at hlast
      by_cases hlen : (0 : ℚ) < ledger.window
      · -- the window that ends with the call
        have hold : units (fun g => (ledger.grant s call).time - ledger.window < g.time ∧
          g.time ≤ (ledger.grant s call).time) (s.granted call.category)
              = units (fun g => (ledger.grant s call).time - ledger.window < g.time)
              (s.granted call.category) :=
          units_congr fun g hg => and_iff_left ((h.past _ g hg).trans htime)
        have hnew : ∀ g ∈ [ledger.grant s call],
          (ledger.grant s call).time - ledger.window < g.time ∧
            g.time ≤ (ledger.grant s call).time := by simpa using hlen
        rw [hold, units_true hnew] at hlast
        push_cast at hlast
        rw [hwindow] at hlast
        simpa [BudgetLedger.grant, add_assoc] using hlast
      · -- a window of no length holds nothing
        have hnone : units (fun g => (ledger.grant s call).time - ledger.window < g.time)
            (s.granted call.category) = 0 := by
          refine units_false fun g hg hlasts => ?_
          have := h.past _ g hg
          linarith
        rw [hnone] at hwindow
        have := hfits.single
        omega
    · intro hroom category hcap y
      rw [after_granted]
      by_cases hc : category = call.category
      · subst hc
        rw [if_pos rfl, units_append]
        by_cases hy : y < (ledger.grant s call).time
        · -- the window ends before the call
          have hnone : units (fun g => y - ledger.window < g.time ∧ g.time ≤ y)
              [ledger.grant s call] = 0 := by
            refine units_false fun g hg hin => ?_
            rw [List.mem_singleton.mp hg] at hin
            exact absurd hin.2 hy.not_ge
          rw [hnone, add_zero]
          exact hroll _ hcap y
        · -- what it holds is less than a window old at the call
          have hold : units (fun g => y - ledger.window < g.time ∧ g.time ≤ y)
            (s.granted call.category)
              ≤ units (fun g => (ledger.grant s call).time - ledger.window < g.time)
              (s.granted call.category) := by
            refine units_mono fun g hg hin => ?_
            linarith [hin.1, not_lt.mp hy]
          have hnew : units (fun g => y - ledger.window < g.time ∧ g.time ≤ y)
              [ledger.grant s call] ≤ call.amount :=
            units_le _
          have := hroom hpos hfits hok
          omega
      · rw [if_neg hc]
        exact hroll category hcap y

/-! ## Every run -/

theorem rollingCap_init (clock : ℚ) : RollingCap ledger (.init clock) := by
  intro category hcap y
  exact hcap.le

/-- **The runs in which no window holds more than the cap**: those in which every call that the
counter lets through finds room for what the counter has forgotten. -/
theorem rollingCap_iff (ledger : BudgetLedger) (clock : ℚ) (calls : List SpendCall) :
    (∀ before s, before <+: calls → run ledger.spendStep (.init clock) before = some s →
      RollingCap ledger s) ↔ Along ledger.spendStep (Room ledger) (.init clock) calls := by
  refine along_iff_reached (I := Counted ledger) (fun call _ s hcounted hroll => ?_)
    (counted_init clock) (rollingCap_init clock)
  have htotal : ∃ s', ledger.spendStep s call = some s' := by
    rcases spendStep_cases ledger s call with ⟨-, heq⟩ | ⟨-, heq⟩ | ⟨-, -, -, heq⟩
    · exact ⟨_, heq⟩
    · exact ⟨_, heq⟩
    · exact ⟨_, heq⟩
  obtain ⟨s', hs'⟩ := htotal
  exact ⟨s', hs', hcounted.step hs', rollingCap_step_iff hcounted hroll hs'⟩

/-- A cap of five units in ten seconds: one at the start, four just before the period is over, five
after it. -/
def boundaryRun : List SpendCall :=
  [⟨lit "tokens", 1, 0, 0, none⟩, ⟨lit "tokens", 4, 9, 0, none⟩, ⟨lit "tokens", 5, 1, 0, none⟩]

/-- Nine units in two seconds. -/
theorem rollingCap_exceeded :
    ¬ ∀ s, run (BudgetLedger.spendStep ⟨[(lit "tokens", 5)], 10⟩) (.init 0) boundaryRun = some s →
      RollingCap ⟨[(lit "tokens", 5)], 10⟩ s := by
  intro h
  have hrun :
    (run (BudgetLedger.spendStep ⟨[(lit "tokens", 5)], 10⟩) (.init 0) boundaryRun).isSome := by
      decide +kernel
  obtain ⟨s, hs⟩ := Option.isSome_iff_exists.mp hrun
  have hunits :
    ((run (BudgetLedger.spendStep ⟨[(lit "tokens", 5)], 10⟩) (.init 0) boundaryRun).map fun s =>
      units (fun g => (10 : ℚ) - (10 : Int) < g.time ∧ g.time ≤ 10) (s.granted (lit "tokens"))) =
          some 9 := by
    decide +kernel
  rw [hs, Option.map_some, Option.some_inj] at hunits
  have hcap := h s hs (lit "tokens") (by decide) 10
  rw [show (units _ _ : Nat) = 9 from hunits] at hcap
  revert hcap
  decide

end Governance
