import Msb.Infra.Keyed
import Msb.Meta.Optimizer

/-!
# Bounded learning

The bounds are checked on the proposed delta. What is stored is the old value plus the delta, cut
off at the floor and at the ceiling and rounded to four decimals; the sum over the entries and the
number of rounds are not checked at all.

Where nothing is cut off and nothing is lost in the rounding, the stored value moves by the recorded
delta, and all that is checked of the delta holds of the move.

* `run_bounded` — what holds of every round of a run whose rounds all stay within the limits that
  are not checked
-/

namespace Meta

open Py Machine Keyed

/-! ## What is claimed -/

/-- The name of a mode. -/
def ExecutionMode.name : ExecutionMode → Str
  | .fable => lit "FABLE"
  | .hybrid => lit "HYBRID"
  | .local => lit "LOCAL"

/-- What a round has seen of a mode. -/
def observed (outcomes : List PipelineOutcome) (mode : ExecutionMode) : ModeStats :=
  modeStats (recent 10000 outcomes) mode.name

variable (B : LearningBounds)

/-- `min(1.0, ms.total / (min_observations * 3))` -/
def confidence (ms : ModeStats) : ℚ := min 1 (ms.total / (B.minObservations * 3))

/-- What a round may do to an entry, with the rounds that came before and what it has seen of the
mode. -/
structure EntryBounded (rounds : Nat) (ms : ModeStats) (e e' : Entry) : Prop where
  key : e'.key = e.key
  delta : |e'.value - e.value| ≤ B.maxAffinityDelta
  up : e.value < e'.value → e.value < ms.successRate
  down : e'.value < e.value → ms.successRate < e.value
  closer : |ms.successRate - e'.value| ≤ |ms.successRate - e.value|
  inside : B.affinityFloor ≤ e.value → e.value ≤ B.affinityCeiling → B.affinityFloor ≤ e'.value ∧
    e'.value ≤ B.affinityCeiling
  observations : ms.total < B.minObservations ∨ confidence B ms < B.minConfidence →
    e'.value = e.value
  lifetime : B.maxLearningRounds ≤ rounds → e'.value = e.value

/-- What a round may do to the matrix. -/
structure RoundBounded (outcomes : List PipelineOutcome) (s s' : AdaptiveOptimizer) : Prop where
  entries : List.Forall₂
    (fun e e' => EntryBounded B s.rounds.length (observed outcomes e.mode) e e') s.affinity.entries
    s'.affinity.entries
  shift : (List.zipWith (fun e e' : Entry => |e'.value - e.value|) s.affinity.entries
    s'.affinity.entries).sum ≤ B.maxTotalShift

/-- The deltas that the rounds have recorded of an entry, summed up. -/
def AdaptiveOptimizer.recorded (s : AdaptiveOptimizer) (key : ExecutionMode × Str) : ℚ :=
  (((s.rounds.flatMap LearningRound.adjustments).filter fun a => a.key = key).map
    AffinityAdjustment.delta).sum

/-- The matrix is the first one plus what is recorded. -/
def Recorded (m : Affinity) (s : AdaptiveOptimizer) : Prop :=
  List.Forall₂ (fun e e' : Entry => e'.key = e.key ∧ e'.value = e.value + s.recorded e.key)
    m.entries s.affinity.entries

/-! ## When it holds -/

/-- A number with four decimals. -/
def OnGrid (q : ℚ) : Prop := ∃ n : Int, q * 10000 = n

/-- Halfway between two numbers with four decimals. -/
def Tie (q : ℚ) : Prop := ∃ n : Int, q * 10000 = n + 1 / 2

/-- The delta that is checked, for what is seen of the mode. -/
def share (ms : ModeStats) (e : Entry) : ℚ := round4 (B.clamp (ms.successRate - e.value))

/-- The entry passes every check. -/
structure Due (ms : ModeStats) (e : Entry) : Prop where
  observations : B.minObservations ≤ ms.total
  confidence : B.minConfidence ≤ confidence B ms
  apart : 1 / 100 ≤ |ms.successRate - e.value|
  ceiling : ms.successRate - e.value ≤ 0 ∨ e.value < B.affinityCeiling
  floor : 0 ≤ ms.successRate - e.value ∨ B.affinityFloor < e.value
  delta : |share B ms e| ≤ B.maxAffinityDelta
  shift : |share B ms e| ≤ B.maxTotalShift

instance instDecidableDue (ms : ModeStats) (e : Entry) : Decidable (Due B ms e) :=
  decidable_of_iff
    (B.minObservations ≤ ms.total ∧ B.minConfidence ≤ Meta.confidence B ms ∧
      1 / 100 ≤ |ms.successRate - e.value| ∧
      (ms.successRate - e.value ≤ 0 ∨ e.value < B.affinityCeiling) ∧
      (0 ≤ ms.successRate - e.value ∨ B.affinityFloor < e.value) ∧
      |share B ms e| ≤ B.maxAffinityDelta ∧ |share B ms e| ≤ B.maxTotalShift)
    ⟨fun ⟨h₁, h₂, h₃, h₄, h₅, h₆, h₇⟩ => ⟨h₁, h₂, h₃, h₄, h₅, h₆, h₇⟩,
      fun ⟨h₁, h₂, h₃, h₄, h₅, h₆, h₇⟩ => ⟨h₁, h₂, h₃, h₄, h₅, h₆, h₇⟩⟩

/-- Nothing is lost for an entry that passes: four decimals, no tie, and nothing is cut off. -/
structure Exact (ms : ModeStats) (e : Entry) : Prop where
  grid : OnGrid e.value
  floor : OnGrid B.affinityFloor
  ceiling : OnGrid B.affinityCeiling
  tie : ¬ Tie (B.clamp (ms.successRate - e.value))
  inside : B.affinityFloor ≤ e.value + B.clamp (ms.successRate - e.value) ∧
    e.value + B.clamp (ms.successRate - e.value) ≤ B.affinityCeiling

/-- The round keeps to what is not checked. -/
structure Within (s : AdaptiveOptimizer) (outcomes : List PipelineOutcome) : Prop where
  exact : ∀ e ∈ s.affinity.entries, Due B (observed outcomes e.mode) e →
    Exact B (observed outcomes e.mode) e
  lifetime : ∀ e ∈ s.affinity.entries, Due B (observed outcomes e.mode) e →
    (s.rounds.length : Int) < B.maxLearningRounds
  shift : (s.affinity.entries.map fun e => if Due B (observed outcomes e.mode) e then |share B
    (observed outcomes e.mode) e| else 0).sum ≤ B.maxTotalShift

/-! ## Rounding -/

variable {q g : ℚ} {a : AffinityAdjustment}

theorem roundEven_le {n : Int} (h : q ≤ n) : roundEven q ≤ n := by
  have hfloor : ⌊q⌋ ≤ n := by
    have := Int.floor_le q
    exact_mod_cast this.trans h
  by_cases hq : q - ⌊q⌋ = 0
  · unfold roundEven
    rw [hq, if_pos (by norm_num)]
    exact hfloor
  · have hlt : ⌊q⌋ < n := by
      have hpos : (⌊q⌋ : ℚ) < q := lt_of_le_of_ne (Int.floor_le q) fun heq =>
        hq (by rw [heq, sub_self])
      exact_mod_cast hpos.trans_le h
    unfold roundEven
    split
    · exact hfloor
    · split
      · omega
      · split <;> omega

theorem le_roundEven {n : Int} (h : n ≤ q) : n ≤ roundEven q := by
  have hfloor : n ≤ ⌊q⌋ := Int.le_floor.mpr h
  unfold roundEven
  split
  · exact hfloor
  · split
    · omega
    · split <;> omega

theorem abs_roundEven_sub (q : ℚ) : |(roundEven q : ℚ) - q| ≤ 1 / 2 := by
  have hle := Int.floor_le q
  have hlt := Int.lt_floor_add_one q
  unfold roundEven
  rw [abs_le]
  split
  · constructor <;> linarith
  · next hge =>
    rw [not_lt] at hge
    split
    · push_cast
      constructor <;> linarith
    · next hhalf =>
      rw [not_lt] at hhalf
      split
      · constructor <;> linarith
      · push_cast
        constructor <;> linarith

/-- Away from the ties, a whole number can be taken out. -/
theorem roundEven_add_int {n : Int} (h : q - ⌊q⌋ ≠ 1 / 2) :
    roundEven (n + q) = n + roundEven q := by
  have hfract : (n : ℚ) + q - ⌊(n : ℚ) + q⌋ = q - ⌊q⌋ := by
    rw [Int.floor_intCast_add]
    push_cast
    ring
  unfold roundEven
  rw [hfract, Int.floor_intCast_add]
  split
  · rfl
  · next hge =>
    have hlt : 1 / 2 < q - ⌊q⌋ := lt_of_le_of_ne (not_lt.mp hge) (Ne.symm h)
    rw [if_pos hlt, if_pos hlt, add_assoc]

theorem round4_le (hg : OnGrid g) (h : q ≤ g) : round4 q ≤ g := by
  obtain ⟨n, hn⟩ := hg
  have hround : roundEven (q * 10000) ≤ n := roundEven_le (by rw [← hn]; linarith)
  have hcast : (roundEven (q * 10000) : ℚ) ≤ n := by exact_mod_cast hround
  unfold round4
  linarith

theorem le_round4 (hg : OnGrid g) (h : g ≤ q) : g ≤ round4 q := by
  obtain ⟨n, hn⟩ := hg
  have hround : n ≤ roundEven (q * 10000) := le_roundEven (by rw [← hn]; linarith)
  have hcast : (n : ℚ) ≤ roundEven (q * 10000) := by exact_mod_cast hround
  unfold round4
  linarith

theorem abs_round4_sub (q : ℚ) : |round4 q - q| ≤ 1 / 20000 := by
  have h := abs_roundEven_sub (q * 10000)
  rw [abs_le] at h ⊢
  unfold round4
  constructor <;> linarith [h.1, h.2]

theorem round4_add (hg : OnGrid g) (htie : ¬ Tie q) : round4 (g + q) = g + round4 q := by
  obtain ⟨n, hn⟩ := hg
  have hhalf : q * 10000 - ⌊q * 10000⌋ ≠ 1 / 2 := fun h => htie ⟨⌊q * 10000⌋, by linarith⟩
  unfold round4
  rw [add_mul, hn, roundEven_add_int hhalf]
  push_cast
  rw [add_div, ← hn]
  ring

/-! ## One entry -/

variable {B} {ms : ModeStats} {e : Entry}

/-- What a round stores for an entry that is due. -/
theorem Exact.stored (h : Exact B ms e) :
    round4 (max B.affinityFloor
      (min B.affinityCeiling (e.value + B.clamp (ms.successRate - e.value)))) =
      e.value + share B ms e := by
  rw [min_eq_right h.inside.2, max_eq_right h.inside.1, round4_add h.grid h.tie]
  rfl

theorem onGrid_zero : OnGrid 0 := ⟨0, by norm_num⟩

/-- The share of an entry lies between nothing and the rate, up to the rounding. -/
theorem share_bounds (hdelta : 0 ≤ B.maxAffinityDelta) :
    (0 ≤ ms.successRate - e.value → 0 ≤ share B ms e ∧
      share B ms e ≤ ms.successRate - e.value + 1 / 20000) ∧
      (ms.successRate - e.value ≤ 0 → share B ms e ≤ 0 ∧ ms.successRate - e.value - 1 / 20000 ≤
        share B ms e) := by
  have hround := abs_le.mp (abs_round4_sub (B.clamp (ms.successRate - e.value)))
  unfold share
  constructor
  · intro h
    have hclamp : 0 ≤ B.clamp (ms.successRate - e.value) ∧ B.clamp (ms.successRate - e.value) ≤
        ms.successRate - e.value := by
      unfold LearningBounds.clamp
      have hmin : 0 ≤ min B.maxAffinityDelta (ms.successRate - e.value) := le_min hdelta h
      exact ⟨hmin.trans (le_max_right _ _), max_le (by linarith) (min_le_right _ _)⟩
    exact ⟨le_round4 onGrid_zero hclamp.1, by linarith [hclamp.2, hround.2]⟩
  · intro h
    have hclamp : B.clamp (ms.successRate - e.value) ≤ 0 ∧
        ms.successRate - e.value ≤ B.clamp (ms.successRate - e.value) := by
      unfold LearningBounds.clamp
      have hmin : min B.maxAffinityDelta (ms.successRate - e.value) = ms.successRate - e.value :=
        min_eq_right (by linarith)
      rw [hmin]
      exact ⟨max_le (by linarith) h, le_max_right _ _⟩
    exact ⟨round4_le onGrid_zero hclamp.1, by linarith [hclamp.2, hround.1]⟩

/-- An entry that is due moves by its share. -/
theorem Due.bounded (hdue : Due B ms e) (h : Exact B ms e) (hdelta : 0 ≤ B.maxAffinityDelta)
    {rounds : Nat} (hrounds : (rounds : Int) < B.maxLearningRounds) :
    EntryBounded B rounds ms e { e with value := e.value + share B ms e } := by
  obtain ⟨hup, hdown⟩ := share_bounds hdelta
  refine ⟨rfl, ?_, ?_, ?_, ?_, ?_, ?_, ?_⟩
  · show |e.value + share B ms e - e.value| ≤ B.maxAffinityDelta
    rw [add_sub_cancel_left]
    exact hdue.delta
  · intro hlt
    have hpos : 0 < share B ms e := by linarith [show e.value < e.value + share B ms e from hlt]
    by_contra hle
    linarith [(hdown (by linarith)).1]
  · intro hlt
    have hneg : share B ms e < 0 := by linarith [show e.value + share B ms e < e.value from hlt]
    by_contra hle
    linarith [(hup (by linarith)).1]
  · show |ms.successRate - (e.value + share B ms e)| ≤ |ms.successRate - e.value|
    have hapart := hdue.apart
    -- the rounding is smaller than the distance
    rcases le_total 0 (ms.successRate - e.value) with hsign | hsign
    · obtain ⟨h₀, h₁⟩ := hup hsign
      rw [abs_of_nonneg hsign] at hapart ⊢
      exact abs_le.mpr ⟨by linarith, by linarith⟩
    · obtain ⟨h₀, h₁⟩ := hdown hsign
      rw [abs_of_nonpos hsign] at hapart ⊢
      exact abs_le.mpr ⟨by linarith, by linarith⟩
  · intro _ _
    show B.affinityFloor ≤ e.value + share B ms e ∧ e.value + share B ms e ≤ B.affinityCeiling
    unfold share
    rw [← round4_add h.grid h.tie]
    exact ⟨le_round4 h.floor h.inside.1, round4_le h.ceiling h.inside.2⟩
  · rintro (hfew | hlow)
    · exact absurd hdue.observations (not_le.mpr hfew)
    · exact absurd hdue.confidence (not_le.mpr hlow)
  · intro hover
    omega

/-- An entry that stays. -/
theorem entryBounded_refl (hdelta : 0 ≤ B.maxAffinityDelta) {rounds : Nat} :
    EntryBounded B rounds ms e e where
  key := rfl
  delta := by
    rw [sub_self, abs_zero]
    exact hdelta
  up h := absurd h (lt_irrefl _)
  down h := absurd h (lt_irrefl _)
  closer := le_refl _
  inside hfloor hceiling := ⟨hfloor, hceiling⟩
  observations _ := rfl
  lifetime _ := rfl

/-! ## The adjustments of a round -/

theorem ofName_eq_some {name : Str} {mode : ExecutionMode}
    (h : ExecutionMode.ofName name = some mode) : name = mode.name := by
  unfold ExecutionMode.ofName at h
  split at h
  · next hname =>
    obtain rfl := Option.some.inj h
    exact hname
  · split at h
    · next hname =>
      obtain rfl := Option.some.inj h
      exact hname
    · split at h
      · next hname =>
        obtain rfl := Option.some.inj h
        exact hname
      · cases h

theorem ofName_name (mode : ExecutionMode) : ExecutionMode.ofName mode.name = some mode := by
  cases mode <;> rfl

variable {outcomes : List PipelineOutcome} {mode : ExecutionMode} {str : ℚ → Str} {m : Affinity}

theorem nodup_modes : ((aggregateByMode outcomes).map ModeStats.mode).Nodup := by
  unfold aggregateByMode
  generalize recent 10000 outcomes = outcomes
  rw [List.map_map]
  show (List.map (fun mode => mode) _).Nodup
  rw [List.map_id']
  exact nodup_eraseDups _

/-- The stats of a mode are what is observed of it. -/
theorem stats_eq_observed (h : ms ∈ aggregateByMode outcomes) (hmode : ms.mode = mode.name) :
    ms = observed outcomes mode := by
  unfold aggregateByMode at h
  unfold observed
  generalize recent 10000 outcomes = outcomes at h ⊢
  obtain ⟨name, -, rfl⟩ := List.mem_map.mp h
  obtain rfl : name = mode.name := hmode
  rfl

/-- A mode that has been seen is among the stats. -/
theorem observed_mem (h : 0 < (observed outcomes mode).total) :
    observed outcomes mode ∈ aggregateByMode outcomes := by
  unfold aggregateByMode
  unfold observed at h ⊢
  generalize recent 10000 outcomes = outcomes at h ⊢
  obtain ⟨o, ho⟩ := List.exists_mem_of_length_pos h
  obtain ⟨hmem, hmode⟩ := List.mem_filter.mp ho
  refine List.mem_map.mpr ⟨mode.name, ?_, rfl⟩
  rw [List.mem_eraseDups, ← of_decide_eq_true hmode]
  exact List.mem_map_of_mem hmem

/-- The proposals for the entries of one mode. -/
def modeProposals (B : LearningBounds) (m : Affinity) (ms : ModeStats) : List AffinityAdjustment :=
  match ExecutionMode.ofName ms.mode with
  | none => []
  | some mode =>
    if ms.total < B.minObservations then []
    else (m.entries.filter fun e => e.mode = mode).filterMap (propose B ms)

theorem propose_key (h : propose B ms e = some a) : a.key = e.key := by
  unfold propose at h
  dsimp only at h
  split at h
  · cases h
  · split at h
    · cases h
    · split at h
      · cases h
      · obtain rfl := Option.some.inj h
        rfl

/-- Only the entries of a mode are adjusted by its proposals. -/
theorem modeProposals_other (h : ms.mode ≠ e.mode.name) :
    (modeProposals B m ms).filter (fun a => a.key = e.key) = [] := by
  rw [List.filter_eq_nil_iff]
  intro a ha hkey
  have hkey : a.key = e.key := of_decide_eq_true hkey
  unfold modeProposals at ha
  split at ha
  · cases ha
  · next mode hmode =>
    split at ha
    · cases ha
    · obtain ⟨e', he', ha'⟩ := List.mem_filterMap.mp ha
      have hsame : e'.mode = mode := of_decide_eq_true (List.mem_filter.mp he').2
      have hkeys : e'.key = e.key := (propose_key ha').symm.trans hkey
      refine h ?_
      rw [ofName_eq_some hmode, ← hsame]
      exact congrArg (fun k : ExecutionMode × Str => k.1.name) hkeys

/-- The proposal for an entry, of the stats of its mode. -/
theorem modeProposals_own (he : e ∈ m.entries) (hmode : ms.mode = e.mode.name) :
    (modeProposals B m ms).filter (fun a => a.key = e.key) =
      if ms.total < B.minObservations then [] else (propose B ms e).toList := by
  unfold modeProposals
  rw [hmode, ofName_name]
  dsimp only
  split
  · rfl
  · have hnodup : (m.entries.filter fun e' => e'.mode = e.mode).Nodup :=
      (List.Nodup.of_map _ m.nodup).filter _
    have hmem : e ∈ m.entries.filter fun e' => e'.mode = e.mode :=
      List.mem_filter.mpr ⟨he, decide_eq_true rfl⟩
    rw [List.filterMap_eq_flatMap_toList, List.filter_flatMap, flatMap_eq_of_unique hnodup hmem]
    · cases hpropose : propose B ms e with
      | none => rfl
      | some a =>
        show [a].filter _ = [a]
        rw [List.filter_singleton, decide_eq_true (propose_key hpropose)]
        rfl
    · intro e' he' hne
      cases hpropose : propose B ms e' with
      | none => rfl
      | some a =>
        have hkey : a.key ≠ e.key := by
          rw [propose_key hpropose]
          intro hkey
          exact hne (List.inj_on_of_nodup_map m.nodup (List.mem_filter.mp he').1 he hkey)
        show [a].filter _ = []
        rw [List.filter_singleton, decide_eq_false hkey]
        rfl

/-- **The proposals for an entry**: one at most. -/
theorem proposals_of_entry (hpos : 0 < B.minObservations) (he : e ∈ m.entries) :
    (computeAdjustments B m (aggregateByMode outcomes)).filter (fun a => a.key = e.key) =
      if (observed outcomes e.mode).total < B.minObservations then []
      else (propose B (observed outcomes e.mode) e).toList := by
  show ((aggregateByMode outcomes).flatMap (modeProposals B m)).filter _ = _
  rw [List.filter_flatMap]
  by_cases hseen : observed outcomes e.mode ∈ aggregateByMode outcomes
  · rw [flatMap_eq_of_unique (List.Nodup.of_map _ nodup_modes) hseen]
    · exact modeProposals_own he rfl
    · intro ms hms hne
      exact modeProposals_other fun hmode => hne (stats_eq_observed hms hmode)
  · have hnone : (observed outcomes e.mode).total = 0 :=
      Nat.eq_zero_of_not_pos fun h => hseen (observed_mem h)
    rw [hnone, if_pos (by exact_mod_cast hpos), List.flatMap_eq_nil_iff]
    intro ms hms
    refine modeProposals_other fun hmode => hseen ?_
    rw [← stats_eq_observed hms hmode]
    exact hms

/-- The adjustment of an entry that is due. -/
def adjustment (B : LearningBounds) (ms : ModeStats) (e : Entry) : AffinityAdjustment where
  mode := e.mode
  signal := e.signal
  oldValue := e.value
  newValue :=
    round4 (max B.affinityFloor
      (min B.affinityCeiling (e.value + B.clamp (ms.successRate - e.value))))
  delta := share B ms e
  reason := lit "observed_rate=" ++ fixed 3 ms.successRate ++ lit " vs affinity=" ++ fixed 3 e.value
  observations := ms.total
  confidence := confidence B ms

theorem checkBounds_eq_none : checkBounds B str a = none ↔
    B.minConfidence ≤ a.confidence ∧ |a.delta| ≤ B.maxAffinityDelta ∧
    |a.delta| ≤ B.maxTotalShift := by
  unfold checkBounds
  split
  · next h => simp [not_le.mpr h]
  · split
    · next h => simp [not_le.mpr h]
    · split
      · next h => simp [not_le.mpr h]
      · next h₁ h₂ h₃ => simp [not_lt.mp h₁, not_lt.mp h₂, not_lt.mp h₃]

/-- **The accepted adjustments of an entry**: the one, where it is due. -/
theorem accepted_of_entry (hpos : 0 < B.minObservations) (he : e ∈ m.entries) :
    (accepted B str (computeAdjustments B m (aggregateByMode outcomes))).filter
    (fun a => a.key = e.key) =
      if Due B (observed outcomes e.mode) e then [adjustment B (observed outcomes e.mode) e]
      else [] := by
  unfold accepted
  rw [List.filter_comm, proposals_of_entry hpos he]
  generalize observed outcomes e.mode = ms
  by_cases hfew : (ms.total : Int) < B.minObservations
  · rw [if_pos hfew, if_neg fun hdue => absurd hdue.observations (not_le.mpr hfew)]
    rfl
  · rw [if_neg hfew]
    unfold propose
    dsimp only
    split
    · next hclose =>
      rw [if_neg fun hdue => absurd hdue.apart (not_le.mpr hclose)]
      rfl
    · next hapart =>
      split
      · next htop =>
        rw [if_neg fun hdue => hdue.ceiling.elim (not_le.mpr htop.1) (not_lt.mpr htop.2)]
        rfl
      · next htop =>
        split
        · next hbottom =>
          rw [if_neg fun hdue => hdue.floor.elim (not_le.mpr hbottom.1) (not_lt.mpr hbottom.2)]
          rfl
        · next hbottom =>
          show [adjustment B ms e].filter _ = _
          rw [List.filter_singleton]
          -- past the early exits only the bounds are left
          by_cases hcheck : checkBounds B str (adjustment B ms e) = none
          · obtain ⟨hconfidence, hdelta, hshift⟩ := checkBounds_eq_none.mp hcheck
            have hdue : Due B ms e := by
              refine ⟨not_lt.mp hfew, hconfidence, not_lt.mp hapart, ?_, ?_, hdelta, hshift⟩
              · by_contra h
                rw [not_or, not_le, not_lt] at h
                exact htop h
              · by_contra h
                rw [not_or, not_le, not_lt] at h
                exact hbottom h
            rw [hcheck, if_pos hdue]
            rfl
          · rw [if_neg fun hdue =>
              hcheck (checkBounds_eq_none.mpr ⟨hdue.confidence, hdue.delta, hdue.shift⟩)]
            rw [Option.isNone_eq_false_iff.mpr (Option.ne_none_iff_isSome.mp hcheck)]
            rfl

/-! ## The matrix after a round -/

theorem set_entries (key : ExecutionMode × Str) (value : ℚ) :
    (m.set key value).entries = m.entries.map fun e => if e.key = key then { e with value := value }
    else e := rfl

/-- What is stored for an entry after some adjustments: the last one. -/
def adjusted (applied : List AffinityAdjustment) (e : Entry) : Entry :=
  (applied.filter fun a => a.key = e.key).getLast?.elim e fun a => { e with value := a.newValue }

theorem adjusted_cons_of_eq {applied : List AffinityAdjustment} (h : a.key = e.key) :
    adjusted (a :: applied) e = adjusted applied { e with value := a.newValue } := by
  unfold adjusted
  rw [List.filter_cons, if_pos (decide_eq_true h), List.getLast?_cons]
  show Option.elim (some _) _ _ = ((applied.filter fun b => b.key = e.key).getLast?).elim _ _
  cases (applied.filter fun b => b.key = e.key).getLast? <;> rfl

theorem foldl_set : ∀ (applied : List AffinityAdjustment) (m : Affinity),
    (applied.foldl (fun m a => m.set a.key a.newValue) m).entries = m.entries.map (adjusted applied)
  | [], m => (List.map_id _).symm
  | a :: applied, m => by
    rw [List.foldl_cons, foldl_set applied, set_entries, List.map_map]
    refine List.map_congr_left fun e _ => ?_
    show adjusted applied (if e.key = a.key then { e with value := a.newValue } else e) = adjusted
      (a :: applied) e
    by_cases hkey : e.key = a.key
    · rw [if_pos hkey, adjusted_cons_of_eq hkey.symm]
    · rw [if_neg hkey]
      unfold adjusted
      rw [List.filter_cons_of_neg (by rwa [decide_eq_true_eq, eq_comm])]

/-- What a round makes of an entry. -/
def learned (B : LearningBounds) (outcomes : List PipelineOutcome) (e : Entry) : Entry :=
  if Due B (observed outcomes e.mode) e
    then { e with value := (adjustment B (observed outcomes e.mode) e).newValue } else e

theorem total_le_sum {stats : List ModeStats} (h : ms ∈ stats) :
    ms.total ≤ (stats.map ModeStats.total).sum :=
  List.single_le_sum (fun _ _ => Nat.zero_le _) _ (List.mem_map_of_mem h)

/-- Without enough outcomes no entry is due. -/
theorem not_due_of_few (hpos : 0 < B.minObservations)
    (hfew : (((aggregateByMode outcomes).map ModeStats.total).sum : Int) < B.minObservations)
    (e : Entry) :
    ¬ Due B (observed outcomes e.mode) e := by
  intro hdue
  have hobservations := hdue.observations
  have hseen : 0 < (observed outcomes e.mode).total := by exact_mod_cast hpos.trans_le hobservations
  have hle := total_le_sum (observed_mem hseen)
  generalize aggregateByMode outcomes = stats at hfew hle
  generalize observed outcomes e.mode = ms at hobservations hle
  omega

/-- **The matrix and the record after a round.** -/
theorem learn_spec (hpos : 0 < B.minObservations) {s : AdaptiveOptimizer} :
    (learn B str s outcomes).affinity.entries = s.affinity.entries.map (learned B outcomes) ∧
    ∃ round, (learn B str s outcomes).rounds = s.rounds ++ [round] ∧ ∀ e ∈ s.affinity.entries,
      round.adjustments.filter (fun a => a.key = e.key) =
        if Due B (observed outcomes e.mode) e then [adjustment B (observed outcomes e.mode) e]
        else [] := by
  unfold learn
  dsimp only
  split
  · next hfew =>
    have hnone := not_due_of_few hpos hfew
    refine ⟨?_, _, rfl, fun e _ => ?_⟩
    · show s.affinity.entries = _
      conv_lhs => rw [← List.map_id s.affinity.entries]
      refine List.map_congr_left fun e _ => ?_
      exact (if_neg (hnone e)).symm
    · rw [if_neg (hnone e)]
      rfl
  · refine ⟨?_, _, rfl, fun e he => accepted_of_entry hpos he⟩
    show ((accepted B str _).foldl (fun m a => m.set a.key a.newValue) s.affinity).entries = _
    rw [foldl_set]
    refine List.map_congr_left fun e he => ?_
    unfold adjusted learned
    rw [accepted_of_entry hpos he]
    split <;> rfl

/-! ## Rounds -/

/-- The limits that the claim asks of the bounds. -/
structure LearningBounds.Valid (B : LearningBounds) : Prop where
  observations : 0 < B.minObservations
  delta : 0 < B.maxAffinityDelta
  shift : 0 < B.maxTotalShift
  rounds : 0 < B.maxLearningRounds
  floor : 0 ≤ B.affinityFloor
  ordered : B.affinityFloor ≤ B.affinityCeiling
  ceiling : B.affinityCeiling ≤ 1

variable {s : AdaptiveOptimizer}

/-- What a round within the limits makes of an entry. -/
theorem Within.learned (h : Within B s outcomes) (he : e ∈ s.affinity.entries) :
    learned B outcomes e = { e with
      value := e.value +
          (if Due B (observed outcomes e.mode) e then share B (observed outcomes e.mode) e else 0)
          } := by
  unfold Meta.learned
  by_cases hdue : Due B (observed outcomes e.mode) e
  · rw [if_pos hdue, if_pos hdue, ← (h.exact e he hdue).stored]
    rfl
  · rw [if_neg hdue, if_neg hdue, add_zero]

/-- **One round.** -/
theorem Within.bounded (h : Within B s outcomes) (hB : B.Valid) :
    RoundBounded B outcomes s (learn B str s outcomes) := by
  obtain ⟨hentries, -⟩ := learn_spec hB.observations (s := s)
  constructor
  · rw [hentries, List.forall₂_map_right_iff, List.forall₂_same]
    intro e he
    rw [h.learned he]
    by_cases hdue : Due B (observed outcomes e.mode) e
    · rw [if_pos hdue]
      exact hdue.bounded (h.exact e he hdue) hB.delta.le (h.lifetime e he hdue)
    · rw [if_neg hdue, add_zero]
      exact entryBounded_refl hB.delta.le
  · rw [hentries, List.zipWith_map_right, List.zipWith_self]
    refine le_of_eq_of_le (congrArg List.sum (List.map_congr_left fun e he => ?_)) h.shift
    rw [h.learned he, add_sub_cancel_left]
    split
    · rfl
    · exact abs_zero

theorem recorded_learn (hB : B.Valid) (he : e ∈ s.affinity.entries) :
    (learn B str s outcomes).recorded e.key = s.recorded e.key +
      if Due B (observed outcomes e.mode) e then share B (observed outcomes e.mode) e else 0 := by
  obtain ⟨-, round, hrounds, hround⟩ := learn_spec hB.observations (s := s)
  unfold AdaptiveOptimizer.recorded
  rw [hrounds, List.flatMap_append, List.filter_append, List.map_append, List.sum_append,
    List.flatMap_singleton, hround e he]
  split
  · rw [List.map_singleton, List.sum_singleton]
    rfl
  · rfl

theorem Within.recorded (h : Within B s outcomes) (hB : B.Valid) {m : Affinity}
    (hm : Recorded m s) : Recorded m (learn B str s outcomes) := by
  obtain ⟨hentries, -⟩ := learn_spec hB.observations (s := s)
  unfold Recorded at hm ⊢
  rw [hentries, List.forall₂_map_right_iff]
  obtain ⟨hlength, hget⟩ := List.forall₂_iff_get.mp hm
  refine List.forall₂_iff_get.mpr ⟨hlength, fun i hi hi' => ?_⟩
  obtain ⟨hkey, hvalue⟩ := hget i hi hi'
  have hmem : s.affinity.entries.get ⟨i, hi'⟩ ∈ s.affinity.entries := List.get_mem _ _
  generalize s.affinity.entries.get ⟨i, hi'⟩ = e at hkey hvalue hmem ⊢
  rw [h.learned hmem, ← hkey, recorded_learn hB hmem, hkey, ← add_assoc, ← hvalue]
  exact ⟨hkey, rfl⟩

/-- **Bounded learning.** In a run whose rounds keep to the limits that are not checked, every round
is bounded, and the matrix is the first one plus what the rounds have recorded. -/
theorem run_bounded (hB : B.Valid) {m : Affinity} {ledgers : List (List PipelineOutcome)}
    (hwithin : Along (learnStep B str) (Within B) (.start m) ledgers) :
    Along (learnStep B str) (fun s outcomes => RoundBounded B outcomes s (learn B str s outcomes))
      (.start m) ledgers ∧
      ∀ s, run (learnStep B str) (.start m) ledgers = some s → Recorded m s := by
  constructor
  · exact along_mono (fun s outcomes h => h.bounded hB) hwithin
  · intro s hs
    refine run_invariant_along (Q := Within B) ?_ ?_ hwithin hs
    · intro outcomes _ t u ht hwithin hstep
      obtain rfl := Option.some.inj hstep
      exact hwithin.recorded hB ht
    · exact List.forall₂_same.mpr fun e _ => ⟨rfl, (add_zero _).symm⟩

/-- After the last round the values stay. -/
theorem RoundBounded.unchanged {s' : AdaptiveOptimizer} (h : RoundBounded B outcomes s s')
    (hrounds : B.maxLearningRounds ≤ s.rounds.length) :
    s'.affinity.entries.map Entry.value = s.affinity.entries.map Entry.value := by
  obtain ⟨hlength, hget⟩ := List.forall₂_iff_get.mp h.entries
  refine List.ext_get (by simp [hlength]) fun i hi hi' => ?_
  rw [List.length_map] at hi hi'
  simpa using (hget i hi' hi).lifetime hrounds

/-! ## Four signals -/

/-- The default bounds. -/
def defaultBounds : LearningBounds := ⟨5, 1 / 20, 3 / 20, 3 / 5, 100, 1 / 20, 19 / 20⟩

theorem defaultBounds_valid : defaultBounds.Valid := by
  constructor <;> norm_num [defaultBounds]

/-- Some signals of one mode, all at one half. -/
def halves (signals : List Str) (h : signals.Nodup) : Affinity where
  entries := signals.map fun signal => ⟨.local, signal, 1 / 2⟩
  nodup := by
    rw [List.map_map]
    refine List.Nodup.map (fun a b hab => ?_) h
    exact congrArg Prod.snd hab

/-- Ten outcomes of that mode that passed. -/
def tenPasses : List PipelineOutcome := List.replicate 10 ⟨lit "LOCAL", lit "PASS"⟩

theorem observed_tenPasses : observed tenPasses .local = ⟨lit "LOCAL", 10, 10⟩ := by
  unfold observed recent
  rfl

def twoSignals : Affinity := halves [lit "novelty", lit "ambiguity"] (by decide)

/-- An entry moves by a twentieth, in the first round and in the second. -/
theorem exact_tenPasses {e : Entry} (hmode : e.mode = .local)
    (hvalue : e.value = 1 / 2 ∨ e.value = 11 / 20) :
    Exact defaultBounds (observed tenPasses e.mode) e ∧
      share defaultBounds (observed tenPasses e.mode) e = 1 / 20 := by
  have hclamp : defaultBounds.clamp ((⟨lit "LOCAL", 10, 10⟩ : ModeStats).successRate - e.value) =
      1 / 20 := by
    rcases hvalue with hvalue | hvalue
    · norm_num [hvalue, ModeStats.successRate, LearningBounds.clamp, defaultBounds]
    · norm_num [hvalue, ModeStats.successRate, LearningBounds.clamp, defaultBounds]
  have hshare : round4 (1 / 20) = 1 / 20 := by decide +kernel
  rw [hmode, observed_tenPasses]
  refine ⟨⟨?_, ⟨500, by norm_num [defaultBounds]⟩, ⟨9500, by norm_num [defaultBounds]⟩, ?_, ?_⟩, ?_⟩
  · rcases hvalue with hvalue | hvalue
    · exact ⟨5000, by norm_num [hvalue]⟩
    · exact ⟨5500, by norm_num [hvalue]⟩
  · rw [hclamp]
    rintro ⟨n, hn⟩
    have htwice : (1000 : ℚ) = 2 * n + 1 := by linarith
    have : (1000 : Int) = 2 * n + 1 := by exact_mod_cast htwice
    omega
  · rw [hclamp]
    rcases hvalue with hvalue | hvalue
    · norm_num [hvalue, defaultBounds]
    · norm_num [hvalue, defaultBounds]
  · unfold share
    rw [hclamp, hshare]

theorem within_tenPasses {s : AdaptiveOptimizer} {v : ℚ} (hv : v = 1 / 2 ∨ v = 11 / 20)
    (hentries : s.affinity.entries.map (fun e => (e.mode, e.value)) = [(.local, v), (.local, v)])
    (hrounds : (s.rounds.length : Int) < defaultBounds.maxLearningRounds) :
        Within defaultBounds s tenPasses := by
  have hentry : ∀ e ∈ s.affinity.entries, e.mode = .local ∧ e.value = v := by
    intro e he
    have hmem : (e.mode, e.value) ∈ [(ExecutionMode.local, v), (.local, v)] := by
      rw [← hentries]
      exact List.mem_map_of_mem he
    simpa using hmem
  have hlearns : ∀ e ∈ s.affinity.entries, _ := fun e he =>
    exact_tenPasses (hentry e he).1 ((hentry e he).2 ▸ hv)
  have hmoves : ∀ e ∈ s.affinity.entries, (if Due defaultBounds (observed tenPasses e.mode) e then
      |share defaultBounds (observed tenPasses e.mode) e| else 0) ≤ 1 / 20 := by
    intro e he
    rw [(hlearns e he).2]
    split <;> norm_num
  refine ⟨fun e he _ => (hlearns e he).1, fun _ _ _ => hrounds, ?_⟩
  obtain ⟨a, b, hab⟩ := List.length_eq_two.mp
    (show s.affinity.entries.length = 2 by simpa using congrArg List.length hentries)
  rw [hab] at hmoves ⊢
  have hfirst := hmoves a List.mem_cons_self
  have hsecond := hmoves b (List.mem_cons_of_mem _ List.mem_cons_self)
  have hlimit : (1 : ℚ) / 10 ≤ defaultBounds.maxTotalShift := by norm_num [defaultBounds]
  simp only [List.map_cons, List.map_nil, List.sum_cons, List.sum_nil]
  linarith

/-- Two entries, and two rounds. -/
theorem run_bounded_one :
    Along (learnStep defaultBounds fun _ => [])
      (fun s outcomes => RoundBounded defaultBounds outcomes s
        (learn defaultBounds (fun _ => []) s outcomes))
      (.start twoSignals) [tenPasses, tenPasses] ∧
    ∀ s, run (learnStep defaultBounds fun _ => []) (.start twoSignals)
      [tenPasses, tenPasses] = some s → Recorded twoSignals s := by
  have hlearned :
    (learn defaultBounds (fun _ => []) (.start twoSignals) tenPasses).affinity.entries.map
        (fun e => (e.mode, e.value)) = [(.local, 11 / 20), (.local, 11 / 20)] ∧
      (learn defaultBounds (fun _ => []) (.start twoSignals) tenPasses).rounds.length = 1 := by
    decide +kernel
  refine run_bounded defaultBounds_valid ⟨?_, fun t ht => ⟨?_, fun _ _ => trivial⟩⟩
  · exact within_tenPasses (.inl rfl) rfl (by decide)
  · obtain rfl := Option.some.inj ht
    refine within_tenPasses (.inr rfl) hlearned.1 ?_
    rw [hlearned.2]
    decide

def oneSignal : Affinity := halves [lit "novelty"] (List.nodup_singleton _)

def fourSignals : Affinity :=
  halves [lit "novelty", lit "ambiguity", lit "complexity", lit "cost_sensitivity"] (by decide)

/-- The four entries move by a fifth together, where three twentieths are the limit; and they move
after the last round. -/
theorem not_bounded : defaultBounds.Valid ∧
    ¬ RoundBounded defaultBounds tenPasses (.start fourSignals)
    (learn defaultBounds (fun _ => []) (.start fourSignals) tenPasses) ∧
    ∃ B s, LearningBounds.Valid B ∧ run (learnStep B fun _ => []) (.start oneSignal)
      [tenPasses] = some s ∧ ¬ RoundBounded B tenPasses s (learn B (fun _ => []) s tenPasses) := by
  refine ⟨defaultBounds_valid, fun h => absurd h.shift (by decide +kernel),
    { defaultBounds with maxLearningRounds := 1 }, _, ?_, rfl, ?_⟩
  · constructor <;> norm_num [defaultBounds]
  · intro h
    exact absurd (h.unchanged (by decide +kernel)) (by decide +kernel)

end Meta
