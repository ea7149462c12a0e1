import Msb.Infra.Keyed
import Msb.Infra.Lines

/-!
# A panel of reviewers

`moie/llm_experts.py` and the controller that runs a panel (`moie/engine.py`, `moie/router.py`,
`moie/meta_critic.py`). A reviewer is asked for lines of text, and its verdict is read from them.
The numbers of a decision (its confidence and its inversion depth) and the text of the critique are
left out, and so is what the evidence retriever does to find its ids.

* `parseExpertOutput`, `LLMExpert.analyze`
* `ReviewPanel`, `buildDiverseReviewerPanel`
* `Controller.analyze`, `Controller.aanalyze`
-/

namespace Moie

open Py

/-! ## The verdict line -/

/-- What is asked of the language: `s.lower()`, what `\w` matches, `repr(s)`, the name of the class
of an exception. -/
structure MoieLib where
  lower : Str → Str
  isWord : CodePoint → Bool
  repr : Str → Str
  className : PyError → Str

/-- The letter of a pattern matches the character where the case is ignored. Four letters beyond
ASCII are in the table. -/
def foldsTo (letter c : CodePoint) : Bool :=
  c = letter ∨ c.val + 32 = letter.val ∨ (letter = 105 ∧ (c = 304 ∨ c = 305)) ∨
    (letter = 115 ∧ c = 383) ∨ (letter = 107 ∧ c = 8490)

/-- `c.upper()` of a character that a letter of the verdicts matches. -/
def upperLetter (c : CodePoint) : CodePoint :=
  if 97 ≤ c.val ∧ c.val ≤ 122 then c - 32 else if c = 383 then 83 else c

/-- What a word of the pattern matches at the front, and what comes after it. -/
def eatFolded : Str → Str → Option (Str × Str)
  | [], s => some ([], s)
  | _ :: _, [] => none
  | letter :: word, c :: s =>
    if foldsTo letter c then (eatFolded word s).map fun p => (c :: p.1, p.2) else none

/-- A verdict line: the group in upper case, and what comes after it. -/
structure VerdictLine where
  verdict : Str
  rest : Str
  deriving DecidableEq

variable (lib : MoieLib)

/-- `\b` after a word -/
def boundary : Str → Bool
  | [] => true
  | c :: _ => !lib.isWord c

/-- `(safe|concern|block)\b` -/
def verdictWord (s : Str) : Option (Str × Str) :=
  [lit "safe", lit "concern", lit "block"].findSome? fun word => (eatFolded word s).filter fun p =>
    boundary lib p.2

/-- `_VERDICT_RE.match(s)` -/
def matchVerdict (s : Str) : Option VerdictLine := do
  let (_, s) ← eatFolded (lit "verdict") (s.dropWhile isSpace)
  match s.dropWhile isSpace with
  | [] => none
  | c :: s =>
    if c ∈ lit ":=-" then (verdictWord lib (s.dropWhile isSpace)).map fun p =>
      ⟨p.1.map upperLetter, p.2⟩ else none

def safe : Str := lit "SAFE"
def concern : Str := lit "CONCERN"
def block : Str := lit "BLOCK"

/-- `s.split(sep, 1)[1]`, where the separator is in the text. -/
def splitAfter (sep : CodePoint) (s : Str) : Option Str :=
  if sep ∈ s then some ((s.dropWhile (· ≠ sep)).tail) else none

/-- `_after_colon` -/
def afterColon (line : Str) : Str :=
  (((lit ":=-").findSome? fun sep => splitAfter sep line).map strip).getD []

/-- What `parse_expert_output` returns. -/
structure ExpertOutput where
  verdict : Str
  risks : List Str
  mitigations : List Str
  assumptions : List Str
  explicit : Bool

/-- What a line that is no verdict adds. -/
def ExpertOutput.bucket (out : ExpertOutput) (s : Str) : ExpertOutput :=
  let low := lib.lower s
  let value := afterColon s
  if (lit "risk").isPrefixOf low then if value = [] then out
    else { out with risks := out.risks ++ [value] }
  else if (lit "mitigation").isPrefixOf low then if value = [] then out
    else { out with mitigations := out.mitigations ++ [value] }
  else if (lit "assumption").isPrefixOf low then if value = [] then out
    else { out with assumptions := out.assumptions ++ [value] }
  else out

def ExpertOutput.line (out : ExpertOutput) (line : Str) : ExpertOutput :=
  let s := strip line
  if s = [] then out
  else
    match matchVerdict lib s with
    | some m => { out with verdict := m.verdict, explicit := true }
    | none => out.bucket lib s

/-- `parse_expert_output` -/
def parseExpertOutput (text : Str) : ExpertOutput :=
  (splitlines text).foldl (ExpertOutput.line lib) ⟨concern, [], [], [], false⟩

/-! ## One reviewer -/

structure Assumption where
  text : Str
  source : Str
  inverted : Str
  risk : Str

structure ExpertReport where
  expertId : Str
  expertName : Str
  verdict : Str
  confidence : ℚ
  assumptions : List Assumption
  risks : List Str
  mitigations : List Str
  evidenceHits : List Str
  summary : Str
  model : Str

structure LLMExpert where
  expertId : Str
  name : Str
  description : Str
  lens : Str
  model : Str
  focusKeywords : List Str
  alwaysOn : Bool
  deriving DecidableEq

/-- What comes of asking a model: there is no client, the client raises, or there is a text. -/
inductive Output where
  | noClient (e : PyError)
  | raised (e : PyError)
  | text (t : Str)

namespace LLMExpert

variable (self : LLMExpert)

/-- `f"{self.name} ({self.model})"` -/
def title : Str := self.name ++ lit " (" ++ self.model ++ lit ")"

/-- `_assumption` -/
def assumption (text : Str) (risks : List Str) : Assumption :=
  let risk := risks.headD (lit "the plan's premise changes materially")
  ⟨text.take 200, self.expertId, lit "if this assumption is wrong, " ++ risk, risk⟩

/-- `_report` -/
def report (verdict : Str) (confidence : ℚ) (risks mitigations : List Str)
    (assumptions : List Assumption) (summary : Str) : ExpertReport :=
  ⟨self.expertId, self.title, verdict, confidence, assumptions, risks.eraseDups.take 5,
    mitigations.eraseDups.take 5, [], summary, self.model⟩

/-- `_VERDICT_CONFIDENCE[verdict]` -/
def verdictConfidence (verdict : Str) : Except PyError ℚ :=
  if verdict = safe then .ok (6 / 10)
  else if verdict = concern then .ok (7 / 10)
  else if verdict = block then .ok (9 / 10)
  else .error (.raised (lit "KeyError") (lib.repr verdict))

/-- `analyze` -/
def analyze : Output → Except PyError ExpertReport
  | .noClient e => .error e
  | .raised e =>
    .ok (self.report concern (4 / 10)
      [lit "reviewer " ++ lib.repr self.model ++ lit " unavailable: " ++ lib.className e] [] []
      (self.title ++ lit " unreachable — fail-closed to CONCERN"))
  | .text t =>
    let out := parseExpertOutput lib (strip t)
    let assumptions := out.assumptions.map fun a => self.assumption a out.risks
    if out.explicit = false then
      .ok (self.report concern (4 / 10) out.risks out.mitigations assumptions
        (self.title ++ lit " returned no parseable verdict — fail-closed to CONCERN"))
    else do
      let confidence ← verdictConfidence lib out.verdict
      return self.report out.verdict confidence out.risks out.mitigations assumptions
        (self.title ++ lit ": " ++ out.verdict ++ lit " (" ++ (intLit out.risks.length).text ++
          lit " risk(s), " ++ (intLit assumptions.length).text ++ lit " assumption(s))")

/-- `_safe_analyze` -/
def safeAnalyze (out : Output) : ExpertReport :=
  match self.analyze lib out with
  | .ok report => report
  | .error e =>
    ⟨self.expertId, self.name, concern, 3 / 10, [],
      [self.expertId ++ lit " could not complete its inversion"], [], [],
      self.expertId ++ lit " analysis failed: " ++ lib.className e, []⟩

end LLMExpert

/-! ## The panel -/

/-- A panel that passes its own check. -/
structure ReviewPanel where
  builderModel : Str
  experts : List LLMExpert
  nonempty : experts ≠ []
  builder : ∀ e ∈ experts, e.model ≠ builderModel
  distinct : (experts.map LLMExpert.model).Nodup

/-- `ReviewPanel(...)`, which validates itself. -/
def ReviewPanel.make (builderModel : Str) (experts : List LLMExpert) : Except PyError ReviewPanel :=
  if hempty : experts = [] then .error
    (.valueError (lit "review panel requires at least one reviewer"))
  else if hbuilder : ∃ e ∈ experts, e.model = builderModel then
    .error (.valueError (lit "builder model " ++ lib.repr builderModel ++
      lit " may not also be a reviewer (builder != reviewer invariant)"))
  else if hdistinct : (experts.map LLMExpert.model).Nodup then
    .ok ⟨builderModel, experts, hempty, fun e he heq => hbuilder ⟨e, he, heq⟩, hdistinct⟩
  else .error
    (.valueError (lit "reviewer models must be pairwise distinct (model-diversity invariant)"))

/-- A lens: its id, the name and the description of the reviewer. -/
structure Lens where
  lensId : Str
  name : Str
  description : Str

/-- `DEFAULT_LENSES` -/
def defaultLenses : List Lens :=
  [⟨lit "security", lit "Security Reviewer",
      lit "refute the change for security and safety defects (auth, secrets, injection, " ++
        lit "privilege, exposure, fail-closed behavior)"⟩,
    ⟨lit "correctness", lit "Correctness Reviewer",
      lit "refute the change for logic and correctness defects (wrong behavior, edge cases, " ++
        lit "race conditions, broken invariants, tests that do not prove what they claim)"⟩,
    ⟨lit "maintainability", lit "Maintainability Reviewer",
      lit "refute the change for structural defects (coupling, duplicated logic, " ++
        lit "schema/interface drift, undocumented assumptions, dead code)"⟩,
    ⟨lit "coherence", lit "Coherence Reviewer",
      lit "read the WHOLE change and refute it for internal contradictions: claims that " ++
        lit "contradict each other, the stated goal, or the evidence the change itself cites; " ++
        lit "docs that assert one thing in one section and the opposite elsewhere; " ++
        lit "numbers/ids that disagree"⟩]

/-- `DEFAULT_LENSES[3]` -/
def coherenceLens : Lens := defaultLenses.getLast (List.cons_ne_nil _ _)

def expertOf (model : Str) (lens : Lens) : LLMExpert :=
  ⟨lit "llm-" ++ lens.lensId, lens.name, lens.description, lens.lensId, model, [], true⟩

/-- `zip(model_list, cycle(lens_list))` -/
def zipCycle (models : List Str) (lenses : List Lens) : List (Str × Lens) :=
  models.zipIdx.filterMap fun p => lenses[p.2 % lenses.length]?.map fun lens => (p.1, lens)

/-- The last of fewer models than lenses reads for coherence. -/
def pinLast (models : List Str) (lenses : List Lens) : List (Str × Lens) :=
  (zipCycle models lenses).zipIdx.map fun p => if p.2 + 1 = models.length
    then (p.1.1, coherenceLens) else p.1

/-- `build_diverse_reviewer_panel` -/
def buildDiverseReviewerPanel (builderModel : Str) (models : List Str) (lenses : List Lens) :
    Except PyError ReviewPanel :=
  if models = [] then .error
    (.valueError (lit "no reviewer models configured (set MSB_REVIEWER_MODELS)"))
  else
    let pairs := if models.length < lenses.length then pinLast models lenses
      else zipCycle models lenses
    ReviewPanel.make lib builderModel (pairs.map fun p => expertOf p.1 p.2)

/-! ## The controller -/

/-- `ExpertRegistry(experts=...)`: a later expert replaces the one with its id. -/
def registry (experts : List LLMExpert) : List LLMExpert :=
  experts.foldl (fun order e => Keyed.put LLMExpert.expertId e order) []

/-- What the caller passes along with a claim. -/
structure Context where
  domains : List Str
  thorough : Bool

/-- `select_experts` -/
def selectExperts (experts : List LLMExpert) (claim : Str) (context : Context) : List LLMExpert :=
  let lowered := lib.lower claim
  experts.filter fun e => e.alwaysOn || context.thorough || context.domains.contains e.expertId ||
    e.focusKeywords.any fun keyword => decide (keyword <:+: lowered)

/-- A disagreement, by the ids of the two experts. -/
structure Contradiction where
  expertA : Str
  expertB : Str
  deriving DecidableEq

/-- The pair is one of `_MATERIAL_PAIRS`, and a concern against a safe verdict is confident enough.
-/
def material (threshold : ℚ) (a b : ExpertReport) : Bool :=
  if (a.verdict = block ∧ (b.verdict = safe ∨ b.verdict = concern)) ∨
    (b.verdict = block ∧ (a.verdict = safe ∨ a.verdict = concern)) then
    true
  else if a.verdict = concern ∧ b.verdict = safe then decide (threshold ≤ a.confidence)
  else if a.verdict = safe ∧ b.verdict = concern then decide (threshold ≤ b.confidence)
  else false

/-- `detect_contradictions`: one for each unordered pair of ids. -/
def detectContradictions (threshold : ℚ) : List ExpertReport → List Contradiction →
    List Contradiction
  | [], found => found
  | a :: rest, found =>
    detectContradictions threshold rest (rest.foldl (fun found b =>
      if (⟨a.expertId, b.expertId⟩ ∈ found ∨ ⟨b.expertId, a.expertId⟩ ∈ found) ∨
        material threshold a b = false then found
      else found ++ [⟨a.expertId, b.expertId⟩]) found)

structure MoIEDecision where
  claim : Str
  verdict : Str
  reports : List ExpertReport
  contradictions : List Contradiction
  assumptions : List Assumption
  recommendedActions : List Str

def approve : Str := lit "APPROVE"
def conditional : Str := lit "CONDITIONAL"

/-- The first assumption with each text. -/
def distinctAssumptions (reports : List ExpertReport) : List Assumption :=
  (reports.flatMap ExpertReport.assumptions).foldl
    (fun seen a => if a.text ∈ seen.map Assumption.text then seen else seen ++ [a]) []

/-- `synthesize` -/
def synthesize (claim : Str) (reports : List ExpertReport) (contradictions : List Contradiction) :
    MoIEDecision where
  claim := claim
  verdict :=
    if ∃ r ∈ reports, r.verdict = block then block
    else if ∃ r ∈ reports, r.verdict = concern then conditional
    else approve
  reports := reports
  contradictions := contradictions
  assumptions := distinctAssumptions reports
  recommendedActions :=
    (((reports.filter fun r => r.verdict = block ∨ r.verdict = concern).flatMap
      ExpertReport.mitigations).eraseDups).take 6

/-- `_finalize` -/
def finalize (threshold : ℚ) (claim : Str) (reports : List ExpertReport) (evidence : List Str) :
    MoIEDecision :=
  let reports := reports.map fun r => { r with evidenceHits := evidence }
  synthesize claim reports (detectContradictions threshold reports [])

/-- A controller, with the ids of the evidence that is found for a claim and the calibrated
threshold. -/
structure Controller where
  registry : List LLMExpert
  evidence : Str → List Str
  threshold : ℚ

/-- `panel.controller()` -/
def ReviewPanel.controller (panel : ReviewPanel) (evidence : Str → List Str) (threshold : ℚ) :
    Controller :=
  ⟨Moie.registry panel.experts, evidence, threshold⟩

namespace Controller

variable (self : Controller) (outputs : LLMExpert → Output)

/-- The experts that `_prepare` selects for the stripped claim. -/
def experts (claim : Str) (context : Context) : List LLMExpert :=
  if claim = [] then [] else selectExperts lib self.registry claim context

/-- `analyze` -/
def analyze (claim : Str) (context : Context) : MoIEDecision :=
  let claim := strip claim
  let experts := self.experts lib claim context
  if experts = [] then synthesize claim [] []
  else finalize self.threshold claim (experts.map fun e => e.safeAnalyze lib (outputs e))
    (self.evidence claim)

/-- `asyncio.gather`: each task fills its own slot when it finishes. -/
def gather (tasks : List ExpertReport) (order : List Nat) : List (Option ExpertReport) :=
  order.foldl (fun slots i => slots.set i tasks[i]?) (List.replicate tasks.length none)

/-- `aanalyze`, where the experts finish in the order given. -/
def aanalyze (claim : Str) (context : Context) (order : List Nat) : MoIEDecision :=
  let claim := strip claim
  let experts := self.experts lib claim context
  if experts = [] then synthesize claim [] []
  else
    finalize self.threshold claim
      (gather (experts.map fun e => e.safeAnalyze lib (outputs e)) order).reduceOption
      (self.evidence claim)

end Controller

end Moie
