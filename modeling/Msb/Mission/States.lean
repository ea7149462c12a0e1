import Msb.Infra.Text

/-!
# Mission states

`mission/states.py`: the matrix of the transitions, and which of them a human decides.
-/

namespace Mission

open Py

inductive MissionState where
  | draft
  | researching
  | blueprintReview
  | planning
  | planReview
  | building
  | verifying
  | gatedGreen
  | gatedReview
  | gatedBlock
  | merged
  | abandoned
  | blockedOnHuman
  deriving DecidableEq

def MissionState.text : MissionState → Str
  | .draft => lit "DRAFT"
  | .researching => lit "RESEARCHING"
  | .blueprintReview => lit "BLUEPRINT_REVIEW"
  | .planning => lit "PLANNING"
  | .planReview => lit "PLAN_REVIEW"
  | .building => lit "BUILDING"
  | .verifying => lit "VERIFYING"
  | .gatedGreen => lit "GATED_GREEN"
  | .gatedReview => lit "GATED_REVIEW"
  | .gatedBlock => lit "GATED_BLOCK"
  | .merged => lit "MERGED"
  | .abandoned => lit "ABANDONED"
  | .blockedOnHuman => lit "BLOCKED_ON_HUMAN"

def MissionState.all : List MissionState :=
  [.draft, .researching, .blueprintReview, .planning, .planReview, .building, .verifying,
    .gatedGreen, .gatedReview, .gatedBlock, .merged, .abandoned, .blockedOnHuman]

/-- `MissionState(text)`. `repr` is the built-in function on strings. -/
def MissionState.ofText (repr : Str → Str) (text : Str) : Except PyError MissionState :=
  match MissionState.all.find? fun s => s.text = text with
  | some s => .ok s
  | none => .error (.valueError (repr text ++ lit " is not a valid MissionState"))

/-- `TERMINAL` -/
def MissionState.terminal (s : MissionState) : Bool := s = .merged ∨ s = .abandoned

/-- `GATE_VERDICTS` -/
def MissionState.gateVerdict (s : MissionState) : Bool :=
  s = .gatedGreen ∨ s = .gatedReview ∨ s = .gatedBlock

/-- `_EDGES`. The states without a row have no edges of their own. -/
def edges : MissionState → List MissionState
  | .draft => [.researching]
  | .researching => [.blueprintReview]
  | .blueprintReview => [.planning, .researching]
  | .planning => [.planReview]
  | .planReview => [.building, .planning]
  | .building => [.verifying]
  | .verifying => [.gatedGreen, .gatedReview, .gatedBlock, .building]
  | .gatedGreen => [.merged]
  | .gatedReview => [.merged, .building]
  | .gatedBlock => [.building]
  | .merged => []
  | .abandoned => []
  | .blockedOnHuman => []

/-- `HUMAN_GATED` -/
def humanGated : List (MissionState × MissionState) :=
  [(.blueprintReview, .planning), (.planReview, .building), (.gatedGreen, .merged),
    (.gatedReview, .merged)]

def allowedTargets (state : MissionState) (resumeState : Option MissionState) :
    List MissionState :=
  if state.terminal then []
  else if state = .blockedOnHuman then
    match resumeState with
    | none => [.abandoned]
    | some resume => [.abandoned, resume]
  else edges state ++ [.abandoned, .blockedOnHuman]

def validateTransition (fromState toState : MissionState) (resumeState : Option MissionState) :
    Except PyError Unit :=
  if toState ∉ allowedTargets fromState resumeState then
    .error (.raised (lit "MissionTransitionError")
      (lit "illegal mission transition " ++ fromState.text ++ lit " -> " ++ toState.text))
  else .ok ()

def isHumanGated (fromState toState : MissionState) : Bool :=
  if toState = .abandoned then true
  else if fromState = .blockedOnHuman then true
  else (fromState, toState) ∈ humanGated

theorem validateTransition_eq_ok {a b : MissionState} {r : Option MissionState} :
    validateTransition a b r = .ok () ↔ b ∈ allowedTargets a r := by
  unfold validateTransition
  by_cases h : b ∈ allowedTargets a r <;> simp [h]

/-- Where a move can come from. -/
theorem mem_allowedTargets {a b : MissionState} {r : Option MissionState} :
    b ∈ allowedTargets a r ↔ a.terminal = false ∧
      (b = .abandoned ∨ (a = .blockedOnHuman ∧ r = some b) ∨
        (a ≠ .blockedOnHuman ∧ (b = .blockedOnHuman ∨ b ∈ edges a))) := by
  unfold allowedTargets
  by_cases ht : a.terminal = true
  · simp [ht]
  by_cases hb : a = .blockedOnHuman
  · subst hb
    cases r with
    | none => simp [MissionState.terminal]
    | some s => simp [MissionState.terminal, eq_comm]
  · simp [ht, hb]
    tauto

end Mission
