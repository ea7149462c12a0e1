import Msb.Infra.Lines
import Msb.Infra.Run

/-!
# The adaptive optimizer

`meta/adaptive/optimizer.py`: the affinities of the execution modes learn from the outcomes of the
ledger, round by round. The numbers are rationals, and `round` is exact on them.

* `learn` — one round
-/

namespace Meta

open Py

/-! ## Numbers -/

/-- `round(q)`, half to even -/
def roundEven (q : ℚ) : Int :=
  if q - ⌊q⌋ < 1 / 2 then ⌊q⌋
  else if 1 / 2 < q - ⌊q⌋ then ⌊q⌋ + 1
  else if ⌊q⌋ % 2 = 0 then ⌊q⌋ else ⌊q⌋ + 1

/-- `round(q, 4)` -/
def round4 (q : ℚ) : ℚ := roundEven (q * 10000) / 10000

/-- `f"{q:.{k}f}"` -/
def fixed (k : Nat) (q : ℚ) : Str :=
  let n := (roundEven (|q| * 10 ^ k)).toNat
  (if q < 0 then lit "-" else []) ++ (intLit (n / 10 ^ k : Nat)).text ++ lit "." ++ zeroPad k
    (n % 10 ^ k)

/-! ## The data -/

inductive ExecutionMode where
  | fable
  | hybrid
  | «local»
  deriving DecidableEq

/-- `ExecutionMode(name)`, where it does not raise -/
def ExecutionMode.ofName (name : Str) : Option ExecutionMode :=
  if name = lit "FABLE" then some .fable
  else if name = lit "HYBRID" then some .hybrid
  else if name = lit "LOCAL" then some .local
  else none

structure LearningBounds where
  minObservations : Int
  maxAffinityDelta : ℚ
  maxTotalShift : ℚ
  minConfidence : ℚ
  maxLearningRounds : Int
  affinityFloor : ℚ
  affinityCeiling : ℚ

/-- What the optimizer reads of an outcome. -/
structure PipelineOutcome where
  executionMode : Str
  verdict : Str

/-- An entry of the affinity matrix. -/
structure Entry where
  mode : ExecutionMode
  signal : Str
  value : ℚ

def Entry.key (e : Entry) : ExecutionMode × Str := (e.mode, e.signal)

/-- The matrix: no mode has a signal twice. -/
structure Affinity where
  entries : List Entry
  nodup : (entries.map Entry.key).Nodup

structure AffinityAdjustment where
  mode : ExecutionMode
  signal : Str
  oldValue : ℚ
  newValue : ℚ
  delta : ℚ
  reason : Str
  observations : Nat
  confidence : ℚ

def AffinityAdjustment.key (a : AffinityAdjustment) : ExecutionMode × Str := (a.mode, a.signal)

structure LearningRound where
  roundId : Nat
  outcomesConsumed : Nat
  adjustmentsProposed : Nat
  adjustmentsRejected : Nat
  adjustments : List AffinityAdjustment
  rejectionReasons : List Str
  confidenceBefore : ℚ
  confidenceAfter : ℚ

structure ModeStats where
  mode : Str
  total : Nat
  passes : Nat

/-- `success_rate` -/
def ModeStats.successRate (ms : ModeStats) : ℚ := (ms.passes : ℚ) / max 1 (ms.total : ℚ)

structure AdaptiveOptimizer where
  affinity : Affinity
  rounds : List LearningRound

/-- `AdaptiveOptimizer(initial_affinity=m)` -/
def AdaptiveOptimizer.start (m : Affinity) : AdaptiveOptimizer := ⟨m, []⟩

/-- The signals of `DEFAULT_AFFINITY_MATRIX`, with their affinities for the three modes. -/
def defaultAffinities : List (Str × ℚ × ℚ × ℚ) :=
  [(lit "complexity", 95 / 100, 65 / 100, 20 / 100),
    (lit "ambiguity", 95 / 100, 55 / 100, 15 / 100),
    (lit "verification_available", 40 / 100, 90 / 100, 98 / 100),
    (lit "cost_sensitivity", 10 / 100, 65 / 100, 95 / 100),
    (lit "novelty", 95 / 100, 60 / 100, 10 / 100),
      (lit "local_capability", 20 / 100, 90 / 100, 95 / 100),
    (lit "has_dependencies", 30 / 100, 80 / 100, 50 / 100),
      (lit "task_type_score", 50 / 100, 75 / 100, 60 / 100)]

/-- `DEFAULT_AFFINITY_MATRIX.get(mode, {}).get(signal, 0.5)` -/
def defaultAffinity (mode : ExecutionMode) (signal : Str) : ℚ :=
  match defaultAffinities.lookup signal with
  | none => 1 / 2
  | some (fable, hybrid, «local») =>
    match mode with
    | .fable => fable
    | .hybrid => hybrid
    | .local => «local»

/-! ## One round -/

/-- `ledger.recent(n)` -/
@[irreducible]
def recent (n : Nat) (outcomes : List PipelineOutcome) : List PipelineOutcome :=
  outcomes.drop (outcomes.length - n)

/-- What the turns of the loop of `_aggregate_by_mode` add up to for one mode. -/
def modeStats (outcomes : List PipelineOutcome) (mode : Str) : ModeStats :=
  let own := outcomes.filter fun o => o.executionMode = mode
  ⟨mode, own.length, (own.filter fun o => o.verdict = lit "PASS").length⟩

/-- `_aggregate_by_mode`: the modes in the order in which they come up. -/
def aggregateByMode (outcomes : List PipelineOutcome) : List ModeStats :=
  ((recent 10000 outcomes).map PipelineOutcome.executionMode).eraseDups.map
    (modeStats (recent 10000 outcomes))

/-- `_matrix_confidence` -/
def Affinity.confidence (m : Affinity) : ℚ :=
  if m.entries = [] then 1
  else
    let deviation := (m.entries.map fun e => |e.value - defaultAffinity e.mode e.signal|).sum
    max 0 (1 - deviation / m.entries.length * 2)

variable (B : LearningBounds)

/-- `max(-max_affinity_delta, min(max_affinity_delta, delta))` -/
def LearningBounds.clamp (delta : ℚ) : ℚ := max (-B.maxAffinityDelta) (min B.maxAffinityDelta delta)

/-- The turn of the inner loop of `_compute_adjustments` for one entry. -/
def propose (ms : ModeStats) (e : Entry) : Option AffinityAdjustment :=
  let delta := ms.successRate - e.value
  if |delta| < 1 / 100 then none
  else if 0 < delta ∧ B.affinityCeiling ≤ e.value then none
  else if delta < 0 ∧ e.value ≤ B.affinityFloor then none
  else
    some
      { mode := e.mode
        signal := e.signal
        oldValue := e.value
        newValue := round4 (max B.affinityFloor (min B.affinityCeiling (e.value + B.clamp delta)))
        delta := round4 (B.clamp delta)
        reason := lit "observed_rate=" ++ fixed 3 ms.successRate ++ lit " vs affinity=" ++
          fixed 3 e.value
        observations := ms.total
        confidence := min 1 (ms.total / (B.minObservations * 3)) }

/-- `_compute_adjustments` -/
def computeAdjustments (m : Affinity) (stats : List ModeStats) : List AffinityAdjustment :=
  stats.flatMap fun ms =>
    match ExecutionMode.ofName ms.mode with
    | none => []
    | some mode =>
      if ms.total < B.minObservations then []
      else (m.entries.filter fun e => e.mode = mode).filterMap (propose B ms)

/-- `_check_bounds`. `str` is that of a number. -/
def checkBounds (str : ℚ → Str) (a : AffinityAdjustment) : Option Str :=
  if a.confidence < B.minConfidence then
    some (lit "confidence " ++ fixed 3 a.confidence ++ lit " < min " ++ str B.minConfidence)
  else if B.maxAffinityDelta < |a.delta| then
    some (lit "delta " ++ fixed 4 |a.delta| ++ lit " > max " ++ str B.maxAffinityDelta)
  else if B.maxTotalShift < |a.delta| then
    some (lit "total shift " ++ fixed 4 |a.delta| ++ lit " > max " ++ str B.maxTotalShift)
  else none

/-- `self._affinity[mode][signal] = value` -/
def Affinity.set (m : Affinity) (key : ExecutionMode × Str) (value : ℚ) : Affinity where
  entries := m.entries.map fun e => if e.key = key then { e with value := value } else e
  nodup := by
    have hkeys : (m.entries.map fun e => if e.key = key then { e with value := value } else e).map
        Entry.key = m.entries.map Entry.key := by
      rw [List.map_map]
      refine List.map_congr_left fun e _ => ?_
      show Entry.key (if e.key = key then { e with value := value } else e) = e.key
      split <;> rfl
    rw [hkeys]
    exact m.nodup

/-- The adjustments that are accepted. -/
def accepted (str : ℚ → Str) (proposals : List AffinityAdjustment) : List AffinityAdjustment :=
  proposals.filter fun a => (checkBounds B str a).isNone

/-- `learn` -/
def learn (str : ℚ → Str) (s : AdaptiveOptimizer) (outcomes : List PipelineOutcome) :
    AdaptiveOptimizer :=
  let stats := aggregateByMode outcomes
  let consumed := (stats.map ModeStats.total).sum
  let round : LearningRound :=
    ⟨s.rounds.length + 1, consumed, 0, 0, [], [], s.affinity.confidence, 0⟩
  if (consumed : Int) < B.minObservations then
    let reason := lit "insufficient observations: " ++ (intLit consumed).text ++ lit " < " ++
      (intLit B.minObservations).text
    { s with rounds := s.rounds ++ [{ round with rejectionReasons := [reason] }] }
  else
    let proposals := computeAdjustments B s.affinity stats
    let applied := accepted B str proposals
    let affinity := applied.foldl (fun m a => m.set a.key a.newValue) s.affinity
    let reasons := proposals.filterMap (checkBounds B str)
    ⟨affinity, s.rounds ++ [{ round with
      adjustmentsProposed := proposals.length
      adjustmentsRejected := reasons.length
      adjustments := applied
      rejectionReasons := reasons
      confidenceAfter := affinity.confidence }]⟩

/-- A round, with what the ledger has then. Every round comes to an end. -/
def learnStep (str : ℚ → Str) (s : AdaptiveOptimizer) (outcomes : List PipelineOutcome) :
    Option AdaptiveOptimizer :=
  some (learn B str s outcomes)

end Meta
