import Msb.Conversation.TaskContract
import Msb.Infra.FloatArith
import Msb.Infra.PyReload

/-!
# The output guardrail

`conversation/envelope.py`: the id of an answer, the guardrail over a drafted answer, and the age of
a source.

The guardrail counts a source as cited where a citation has its id, and a citation without an id has
the id of a source that has none. The time of a source may come without a zone, and then the age
cannot be computed.

* `claimIdForAns_eq_iff` — when two answers have one id
* `outputGuardrail_perm` — the order of the sources and of the citations does not matter
* `supported_iff` — when a supporting verdict is supported
* `computeFreshness_iff` — which sources have an age
-/

namespace Conversation

open Py Ledger

/-! ## Equality -/

/-- `a == b`, on the keys of a dict. -/
def keyEq (a b : PyKey) : Bool :=
  match keyNum a, keyNum b with
  | some x, some y => x = y
  | _, _ => a = b

mutual

/-- `a == b`. Numbers compare by their value, and `nan` with nothing. -/
def pyEq : PyVal → PyVal → Bool
  | .none, .none => true
  | .str a, .str b => a = b
  | .list xs, .list ys => pyEqElems xs ys
  | .tuple xs, .tuple ys => pyEqElems xs ys
  | .dict xs, .dict ys => xs.length = ys.length && pyEqItems xs ys
  | a, b =>
    match number a, number b with
    | some x, some y => x = y
    | _, _ => false

def pyEqElems : List PyVal → List PyVal → Bool
  | [], [] => true
  | x :: xs, y :: ys => pyEq x y && pyEqElems xs ys
  | _, _ => false

/-- Each of the items has its like among the others. -/
def pyEqItems : List (PyKey × PyVal) → List (PyKey × PyVal) → Bool
  | [], _ => true
  | (k, v) :: xs, ys =>
    (match ys.find? fun p => keyEq p.1 k with
      | some p => pyEq v p.2
      | none => false) && pyEqItems xs ys

end

mutual

/-- `hash(v)` does not raise. -/
def isHashable : PyVal → Bool
  | .list _ | .dict _ => false
  | .tuple xs => areHashable xs
  | _ => true

def areHashable : List PyVal → Bool
  | [] => true
  | x :: xs => isHashable x && areHashable xs

end

/-! ## The guardrail -/

/-- A source or a citation. -/
abbrev Entry := List (PyKey × PyVal)

/-- `d.get(key)` -/
def Entry.get (d : Entry) (key : String) : PyVal := (getItem d (lit key)).getD .none

/-- `d[key]` -/
def Entry.index (d : Entry) (key : String) : Except PyError PyVal :=
  match getItem d (lit key) with
  | none => .error (.raised (lit "KeyError") (lit key))
  | some v => .ok v

def Entry.sourceId (d : Entry) : PyVal := d.get "source_id"

/-- `re.search`, ignoring the case. -/
abbrev Search := String → Str → Bool

/-- `_SAFETY_BLOCKLIST` -/
def safetyBlocklist : List (String × String) :=
  [("how\\s+to\\s+(make|build|create)\\s+a\\s+(bomb|weapon|explosive|malware|ransomware|virus)",
      "dangerous/weapon instruction blocked"),
    ("(instruction|guide)\\s+to\\s+(harm|injure|kill|attack)", "harm instruction blocked"),
    ("(bypass|disable|hack).+(security|authentication|verification|firewall|antivirus)",
      "security bypass blocked")]

/-- The label of the first pattern that is found. -/
def blockedBy (search : Search) (text : Str) : Option Str :=
  (safetyBlocklist.find? fun entry => search entry.1 text).map fun entry => lit entry.2

/-- `any(c.get("source_id") == s["source_id"] for c in citations)` -/
def isCited (citations : List Entry) (s : Entry) : Except PyError Bool :=
  if citations = [] then .ok false
  else do
    let id ← s.index "source_id"
    .ok (citations.any fun c => pyEq c.sourceId id)

/-- `_citation_rate` -/
def citationRate (sources citations : List Entry) : Except PyError PyFloat :=
  if sources = [] then .ok (.zero false)
  else do
    let cited ← sources.mapM (isCited citations)
    .ok (trueDiv (cited.count true) sources.length)

/-- `s["source_id"] in cited_ids` -/
def inIds (ids : List PyVal) (s : Entry) : Except PyError Bool := do
  let id ← s.index "source_id"
  raiseIf (isHashable id = false) .typeError
  .ok (ids.any fun i => pyEq i id)

def isFresh (s : Entry) : Bool := isOneOf (s.get "freshness") ["FRESH", "AGING"]

inductive OutputVerdict where
  | blocked
  | supporting
  | unsupported
  deriving DecidableEq

structure OutputCheck where
  verdict : OutputVerdict
  citationRate : PyFloat
  reason : Option Str

/-- `0.5` -/
def half : PyFloat := ofDecimal false 5 (-1)

/-- `output_guardrail` -/
def outputGuardrail (search : Search) (sources citations : List Entry) (answerText : Str) :
    Except PyError OutputCheck :=
  match blockedBy search answerText with
  | some label => do
    let rate ← citationRate sources citations
    .ok ⟨.blocked, rate, some label⟩
  | none => do
    let rate ← citationRate sources citations
    let ids := (citations.map Entry.sourceId).filter truthy
    raiseIf (∃ id ∈ ids, isHashable id = false) .typeError
    let cited ← sources.mapM fun s => (inIds ids s).map fun hit => (s, hit)
    let hasFresh := cited.any fun p => p.2 && isFresh p.1
    .ok ⟨if sources ≠ [] ∧ half.le rate = true ∧ citations ≠ [] ∧ hasFresh = true then .supporting
      else .unsupported, rate.round 4, none⟩

/-! ## Freshness -/

inductive Freshness where
  | fresh
  | aging
  | stale
  | unknown
  deriving DecidableEq

/-- `compute_freshness`, with the bounds of the bands in days and the time in microseconds. -/
def computeFreshness (fromisoformat : IsoParser) (freshDays agingDays now : Int)
    (sourceTs : Option Str) : Except PyError Freshness :=
  match sourceTs with
  | none | some [] => .ok .unknown
  | some (c :: text) =>
    match fromisoformat (replaceZ (strip (c :: text))) with
    | none => .ok .unknown
    | some ts => do
      let micros ← isoDiff ⟨true, now⟩ ts
      let ageDays := (trueDiv micros 1000000).div (ofDecimal false 86400 0)
      .ok (if numLe (.float ageDays) (.int freshDays) then .fresh
        else if numLe (.float ageDays) (.int agingDays) then .aging
        else .stale)

/-! ## What the guardrail returns -/

section

variable {search : Search} {sources sources' citations citations' : List Entry} {answerText : Str}
  {s : Entry}

/-- The source has an id, whatever it is. -/
def Entry.hasId (s : Entry) : Bool := (getItem s (lit "source_id")).isSome

/-- What the rate counts: a citation has the id of the source, if any. -/
def counted (citations : List Entry) (s : Entry) : Bool :=
  citations.any fun c => pyEq c.sourceId s.sourceId

/-- What the freshness is asked of: an id of a citation is that of the source. -/
def named (citations : List Entry) (s : Entry) : Bool :=
  ((citations.map Entry.sourceId).filter truthy).any fun id => pyEq id s.sourceId

/-- The rate can be computed. -/
def Countable (sources citations : List Entry) : Prop := sources = [] ∨ citations = [] ∨
    ∀ s ∈ sources, s.hasId = true

/-- The cited sources can be found. -/
def Findable (sources citations : List Entry) : Prop :=
  (∀ id ∈ (citations.map Entry.sourceId).filter truthy, isHashable id = true) ∧
    ∀ s ∈ sources, s.hasId = true ∧ isHashable s.sourceId = true

/-- The rate, where it can be computed. -/
def rateOf (sources citations : List Entry) : PyFloat :=
  if sources = [] then .zero false else trueDiv (sources.countP (counted citations)) sources.length

/-- The verdict on an answer that is not blocked. -/
def verdictOf (sources citations : List Entry) : OutputVerdict :=
  if half.le (rateOf sources citations) = true ∧
    (sources.any fun s => named citations s && isFresh s) = true then .supporting
  else .unsupported

/-- A call on every element that returns `g x` where it returns. -/
theorem mapM_eq_ok_of_forall {α β : Type} {f : α → Except PyError β} {P : α → Prop} {g : α → β}
    {xs : List α} {ys : List β}
    (h : ∀ x y, f x = .ok y ↔ P x ∧ g x = y) :
    xs.mapM f = .ok ys ↔ (∀ x ∈ xs, P x) ∧ xs.map g = ys := by
  rw [mapM_eq_ok]
  constructor
  · intro hall
    refine ⟨fun x hx => ?_, ?_⟩
    · obtain ⟨y, -, hy⟩ := exists_of_mapM_eq_ok (mapM_eq_ok.mpr hall) hx
      exact ((h x y).mp hy).1
    · rw [← List.forall₂_eq_eq_eq, List.forall₂_map_left_iff]
      exact hall.imp fun x y hxy => ((h x y).mp hxy).2
  · rintro ⟨hall, rfl⟩
    rw [List.forall₂_map_right_iff, List.forall₂_same]
    exact fun x hx => (h x _).mpr ⟨hall x hx, rfl⟩

theorem index_eq_ok {v : PyVal} :
    s.index "source_id" = .ok v ↔ s.hasId = true ∧ s.sourceId = v := by
  unfold Entry.index Entry.hasId Entry.sourceId Entry.get
  cases getItem s (lit "source_id") <;> simp

theorem isCited_eq_ok {hit : Bool} : isCited citations s = .ok hit ↔
    (citations = [] ∨ s.hasId = true) ∧ counted citations s = hit := by
  unfold isCited counted
  by_cases hnone : citations = []
  · simp [hnone]
  · rw [if_neg hnone, bind_eq_ok]
    constructor
    · rintro ⟨id, hid, h⟩
      obtain ⟨hhas, rfl⟩ := index_eq_ok.mp hid
      exact ⟨.inr hhas, Except.ok.inj h⟩
    · rintro ⟨hhas, rfl⟩
      exact ⟨_, index_eq_ok.mpr ⟨hhas.resolve_left hnone, rfl⟩, rfl⟩

theorem citationRate_eq_ok {rate : PyFloat} : citationRate sources citations = .ok rate ↔
    Countable sources citations ∧ rateOf sources citations = rate := by
  unfold citationRate Countable rateOf
  by_cases hnone : sources = []
  · simp [hnone]
  have hcount : (sources.map (counted citations)).count true = sources.countP
      (counted citations) := by
    rw [List.count, List.countP_map]
    exact List.countP_congr fun s _ => by simp
  have hids : (∀ s ∈ sources, citations = [] ∨ s.hasId = true) ↔ citations = [] ∨ ∀ s ∈ sources,
      s.hasId = true := by
    by_cases hempty : citations = [] <;> simp [hempty]
  rw [if_neg hnone, if_neg hnone, bind_eq_ok, or_iff_right hnone, ← hids, ← hcount]
  simp only [mapM_eq_ok_of_forall fun s hit => isCited_eq_ok]
  constructor
  · rintro ⟨cited, ⟨hall, rfl⟩, hrate⟩
    exact ⟨hall, Except.ok.inj hrate⟩
  · rintro ⟨hall, rfl⟩
    exact ⟨_, ⟨hall, rfl⟩, rfl⟩

theorem inIds_eq_ok {ids : List PyVal} {hit : Bool} : inIds ids s = .ok hit ↔
    (s.hasId = true ∧ isHashable s.sourceId = true) ∧
    (ids.any fun id => pyEq id s.sourceId) = hit := by
  unfold inIds
  rw [bind_eq_ok]
  constructor
  · rintro ⟨id, hid, h⟩
    obtain ⟨hhas, rfl⟩ := index_eq_ok.mp hid
    obtain ⟨_, hhash, h⟩ := bind_eq_ok.mp h
    exact ⟨⟨hhas, by simpa using raiseIf_eq_ok.mp hhash⟩, Except.ok.inj h⟩
  · rintro ⟨⟨hhas, hhash⟩, rfl⟩
    exact ⟨_, index_eq_ok.mpr ⟨hhas, rfl⟩,
      bind_eq_ok.mpr ⟨(), raiseIf_eq_ok.mpr (by simp [hhash]), rfl⟩⟩

theorem Findable.countable (h : Findable sources citations) : Countable sources citations :=
  .inr (.inr fun s hs => (h.2 s hs).1)

theorem outputGuardrail_of_blocked {label : Str}
    (hblocked : blockedBy search answerText = some label) {check : OutputCheck} :
    outputGuardrail search sources citations answerText = .ok check ↔
      Countable sources citations ∧ check = ⟨.blocked, rateOf sources citations, some label⟩ := by
  unfold outputGuardrail
  rw [hblocked]
  simp only [bind_eq_ok, citationRate_eq_ok]
  constructor
  · rintro ⟨rate, ⟨hcountable, rfl⟩, h⟩
    exact ⟨hcountable, (Except.ok.inj h).symm⟩
  · rintro ⟨hcountable, rfl⟩
    exact ⟨_, ⟨hcountable, rfl⟩, rfl⟩

theorem outputGuardrail_of_passed (hpassed : blockedBy search answerText = none)
    {check : OutputCheck} : outputGuardrail search sources citations answerText = .ok check ↔
      Findable sources citations ∧
      check = ⟨verdictOf sources citations, (rateOf sources citations).round 4, none⟩ := by
  have hfresh : ∀ (s : Entry) (p : Entry × Bool),
      (inIds ((citations.map Entry.sourceId).filter truthy) s).map (fun hit => (s, hit)) = .ok p ↔
        (s.hasId = true ∧ isHashable s.sourceId = true) ∧ (s, named citations s) = p := by
    intro s p
    rw [map_eq_ok]
    constructor
    · rintro ⟨hit, hhit, rfl⟩
      obtain ⟨hids, rfl⟩ := inIds_eq_ok.mp hhit
      exact ⟨hids, rfl⟩
    · rintro ⟨hids, rfl⟩
      exact ⟨_, inIds_eq_ok.mpr ⟨hids, rfl⟩, rfl⟩
  have hverdict : (if sources ≠ [] ∧ half.le (rateOf sources citations) = true ∧ citations ≠ [] ∧
      ((sources.map fun s => (s, named citations s)).any fun p => p.2 && isFresh p.1) = true
      then OutputVerdict.supporting else .unsupported) = verdictOf sources citations := by
    unfold verdictOf
    rw [List.any_map]
    refine if_congr ⟨fun h => ⟨h.2.1, h.2.2.2⟩, fun h => ?_⟩ rfl rfl
    obtain ⟨s, hs, hnamed⟩ := List.any_eq_true.mp h.2
    have hne : citations ≠ [] := by
      rintro rfl
      simp [named] at hnamed
    exact ⟨List.ne_nil_of_mem hs, h.1, hne, h.2⟩
  unfold outputGuardrail
  rw [hpassed]
  simp only [bind_eq_ok, citationRate_eq_ok, raiseIf_eq_ok, mapM_eq_ok_of_forall hfresh]
  constructor
  · rintro ⟨rate, ⟨hcountable, rfl⟩, u, hhash, cited, ⟨hids, rfl⟩, h⟩
    refine ⟨⟨fun id hid => ?_, hids⟩, ?_⟩
    · by_contra hnot
      exact hhash ⟨id, hid, by simpa using hnot⟩
    · rw [← hverdict]
      exact (Except.ok.inj h).symm
  · rintro ⟨hfindable, rfl⟩
    refine ⟨_, ⟨hfindable.countable, rfl⟩, (), ?_, _, ⟨hfindable.2, rfl⟩, ?_⟩
    · rintro ⟨id, hid, hnot⟩
      rw [hfindable.1 id hid] at hnot
      cases hnot
    · rw [← hverdict]

/-! ### The order -/

theorem counted_perm (h : citations.Perm citations') : counted citations = counted citations' :=
  funext fun _ => h.any_eq

theorem named_perm (h : citations.Perm citations') : named citations = named citations' :=
  funext fun _ => ((h.map _).filter _).any_eq

theorem countable_perm (hs : sources.Perm sources') (hc : citations.Perm citations') :
    Countable sources citations ↔ Countable sources' citations' := by
  have hnil : ∀ {l l' : List Entry}, l.Perm l' → (l = [] ↔ l' = []) := fun h =>
    ⟨fun hl => List.nil_perm.mp (hl ▸ h), fun hl => List.perm_nil.mp (hl ▸ h)⟩
  unfold Countable
  rw [hnil hs, hnil hc]
  simp only [hs.mem_iff]

theorem findable_perm (hs : sources.Perm sources') (hc : citations.Perm citations') :
    Findable sources citations ↔ Findable sources' citations' := by
  unfold Findable
  simp only [hs.mem_iff, ((hc.map Entry.sourceId).filter truthy).mem_iff]

theorem rateOf_perm (hs : sources.Perm sources') (hc : citations.Perm citations') :
    rateOf sources citations = rateOf sources' citations' := by
  have hnil : sources = [] ↔ sources' = [] :=
    ⟨fun hl => List.nil_perm.mp (hl ▸ hs), fun hl => List.perm_nil.mp (hl ▸ hs)⟩
  unfold rateOf
  rw [counted_perm hc, hs.countP_eq, hs.length_eq]
  simp only [hnil]

theorem verdictOf_perm (hs : sources.Perm sources') (hc : citations.Perm citations') :
    verdictOf sources citations = verdictOf sources' citations' := by
  unfold verdictOf
  rw [rateOf_perm hs hc, named_perm hc, hs.any_eq]

/-- **The order does not matter**: neither of the sources nor of the citations. -/
theorem outputGuardrail_perm (hs : sources.Perm sources') (hc : citations.Perm citations') :
    (outputGuardrail search sources citations answerText).toOption =
      (outputGuardrail search sources' citations' answerText).toOption := by
  ext check
  rw [toOption_eq_some, toOption_eq_some]
  cases hblocked : blockedBy search answerText with
  | some label =>
    rw [outputGuardrail_of_blocked hblocked, outputGuardrail_of_blocked hblocked,
      countable_perm hs hc, rateOf_perm hs hc]
  | none =>
    rw [outputGuardrail_of_passed hblocked, outputGuardrail_of_passed hblocked, findable_perm hs hc,
      rateOf_perm hs hc, verdictOf_perm hs hc]

end

/-! ## What SUPPORTING rests on -/

/-- A citation has an id, and it is that of the source. -/
def cites (citations : List Entry) (s : Entry) : Bool :=
  citations.any fun c => !isNull c.sourceId && pyEq c.sourceId s.sourceId

/-- A fresh source is cited, and so are half of the sources. -/
def Supported (sources citations : List Entry) : Prop :=
  (∃ s ∈ sources, cites citations s = true ∧ isFresh s = true) ∧ sources.length ≤ 2 * sources.countP
    (cites citations)

/-- Fewer than half of the sources are cited, and the rate says otherwise. -/
structure Overcounted (search : Search) (sources citations : List Entry) (answerText : Str) :
    Prop where
  passed : blockedBy search answerText = none
  findable : Findable sources citations
  fresh : ∃ s ∈ sources, named citations s = true ∧ isFresh s = true
  rate : half.le (trueDiv (sources.countP (counted citations)) sources.length) = true
  few : 2 * sources.countP (cites citations) < sources.length

section

variable {search : Search} {sources citations : List Entry} {answerText : Str} {s : Entry}

theorem cites_of_named (h : named citations s = true) : cites citations s = true := by
  obtain ⟨id, hid, heq⟩ := List.any_eq_true.mp h
  obtain ⟨hid, htruthy⟩ := List.mem_filter.mp hid
  obtain ⟨c, hc, rfl⟩ := List.mem_map.mp hid
  refine List.any_eq_true.mpr ⟨c, hc, Bool.and_eq_true_iff.mpr ⟨?_, heq⟩⟩
  cases hvalue : c.sourceId <;> first | rfl | (rw [hvalue] at htruthy; cases htruthy)

theorem verdictOf_supporting : verdictOf sources citations = .supporting ↔
    half.le (rateOf sources citations) = true ∧ ∃ s ∈ sources, named citations s = true ∧
    isFresh s = true := by
  unfold verdictOf
  simp [List.any_eq_true]

/-- **When a supporting verdict is supported.** -/
theorem supported_iff : (∀ check, outputGuardrail search sources citations answerText = .ok check →
    check.verdict = .supporting →
    Supported sources citations) ↔ ¬Overcounted search sources citations answerText := by
  constructor
  · intro h hover
    have hne : sources ≠ [] := by
      obtain ⟨s, hs, -⟩ := hover.fresh
      exact List.ne_nil_of_mem hs
    have hrate : half.le (rateOf sources citations) = true := by
      rw [rateOf, if_neg hne]
      exact hover.rate
    have hsupported := h _ ((outputGuardrail_of_passed hover.passed).mpr ⟨hover.findable, rfl⟩)
      (verdictOf_supporting.mpr ⟨hrate, hover.fresh⟩)
    have := hsupported.2
    have := hover.few
    omega
  · intro h check hcheck hverdict
    cases hblocked : blockedBy search answerText with
    | some label =>
      obtain ⟨-, rfl⟩ := (outputGuardrail_of_blocked hblocked).mp hcheck
      cases hverdict
    | none =>
      obtain ⟨hfindable, rfl⟩ := (outputGuardrail_of_passed hblocked).mp hcheck
      obtain ⟨hrate, s, hs, hnamed, hfresh⟩ := verdictOf_supporting.mp hverdict
      refine ⟨⟨s, hs, cites_of_named hnamed, hfresh⟩, ?_⟩
      by_contra hfew
      rw [rateOf, if_neg (List.ne_nil_of_mem hs)] at hrate
      exact h ⟨hblocked, hfindable, ⟨s, hs, hnamed, hfresh⟩, hrate, by omega⟩

theorem half_eq : half = .finite ⟨false, 2 ^ 52, -53, by decide⟩ := by
  have hvalue := ofRat_value ⟨false, 2 ^ 52, -53, by decide⟩ (by norm_num)
  rw [← hvalue]
  norm_num [half, ofDecimal, Finite64.abs]

/-- Less than one half stays less, where the sources can be counted in a float. -/
theorem half_le_trueDiv {k n : ℕ} (hfew : 2 * k < n) (hn : n < 2 ^ 53) :
    half.le (trueDiv k n) = false := by
  have hhalf : (⟨false, 2 ^ 52, -53, by decide⟩ : Finite64).value = 1 / 2 := by
    norm_num [Finite64.value, Finite64.abs]
  rw [half_eq]
  by_cases hk : k = 0
  · subst hk
    show decide (_ ≤ _) = false
    rw [hhalf]
    norm_num [Finite64.value, Finite64.abs]
  have hnpos : (0 : ℚ) < n := by
    have : 0 < n := by omega
    exact_mod_cast this
  have hkpos : (0 : ℚ) < k := by exact_mod_cast Nat.pos_of_ne_zero hk
  have hpos : (0 : ℚ) < k / n := div_pos hkpos hnpos
  -- There is room of half a unit of the numerator below one half.
  have hlt : (k : ℚ) / n < 1 / 2 - 2 ^ (-54 : ℤ) := by
    have hcast : (2 * k + 1 : ℚ) ≤ n := by exact_mod_cast hfew
    have hncast : (n : ℚ) < 2 ^ 53 := by exact_mod_cast hn
    rw [div_lt_iff₀ hnpos]
    norm_num
    linarith
  have hlog : Int.log 2 ((k : ℚ) / n) < -1 := by
    have := (Int.lt_zpow_iff_log_lt (b := 2) (by norm_num) hpos (x := -1)).mp
    refine this (lt_trans hlt ?_)
    norm_num
  have hexp : ulpExp ((k : ℚ) / n) ≤ -54 := by
    unfold ulpExp
    omega
  have hbit : (2 : ℚ) ^ ulpExp ((k : ℚ) / n) ≤ 2 ^ (-54 : ℤ) :=
    zpow_le_zpow_right₀ (by norm_num) hexp
  obtain ⟨x, hx, hneg, habs⟩ := ofRat_of_lt_one false hpos (lt_trans hlt (by norm_num))
  have hdiv : trueDiv k n = .finite x := by
    rw [trueDiv, if_neg (by exact_mod_cast hk), ← hx]
    congr 1
    simp
  rw [hdiv]
  show decide (_ ≤ _) = false
  rw [decide_eq_false_iff_not, hhalf, Finite64.value, if_neg (by simp [hneg])]
  have : (0 : ℚ) < 2 ^ (-54 : ℤ) := by positivity
  linarith

/-- **What goes wrong** with the rate: a source without an id beside a citation without one, or too
many sources for a float. -/
theorem Overcounted.cause (h : Overcounted search sources citations answerText) :
    (∃ s ∈ sources, s.sourceId = .none ∧ ∃ c ∈ citations, c.sourceId = .none) ∨
    2 ^ 53 ≤ sources.length := by
  by_contra hnot
  rw [not_or, not_le] at hnot
  have hsame : ∀ s ∈ sources, counted citations s = true → cites citations s = true := by
    intro s hs hcounted
    obtain ⟨c, hc, heq⟩ := List.any_eq_true.mp hcounted
    refine List.any_eq_true.mpr ⟨c, hc, Bool.and_eq_true_iff.mpr ⟨?_, heq⟩⟩
    cases hvalue : c.sourceId with
    | none =>
      rw [hvalue] at heq
      have hnone : s.sourceId = .none := by
        cases hid : s.sourceId with
        | none => rfl
        | _ =>
          rw [hid] at heq
          simp [pyEq, number] at heq
      exact absurd ⟨s, hs, hnone, c, hc, hvalue⟩ hnot.1
    | _ => rfl
  have hle : sources.countP (counted citations) ≤ sources.countP (cites citations) :=
    List.countP_mono_left hsame
  have hlow := half_le_trueDiv (lt_of_le_of_lt (Nat.mul_le_mul_left 2 hle) h.few) hnot.2
  rw [h.rate] at hlow
  cases hlow

end

/-! ## The id of an answer -/

/-- What the id of an answer is the hash of. -/
def answerBase (query : Str) (sourceIds : List Str) (answerText : Str) : PyVal :=
  object [("query", .str query), ("source_ids", .list ((sourceIds.insertionSort (· ≤ ·)).map .str)),
    ("answer_text", .str answerText)]

/-- The digits of the hash do not collide on the texts of two values. -/
def NoCollision (P : Platform) (v w : PyVal) : Prop :=
  ∀ digits, shortHash P v = .ok digits → shortHash P w = .ok digits →
    canonicalJson P v = canonicalJson P w

section

variable {P : Platform} {query query' answerText answerText' id id' : Str}
  {sourceIds sourceIds' : List Str}

theorem claimIdForAns_eq_ok : claimIdForAns P query sourceIds answerText = .ok id ↔
    ∃ digits, shortHash P (answerBase query sourceIds answerText) = .ok digits ∧
    lit "claim:ans:" ++ digits = id := by
  unfold claimIdForAns
  rw [bind_eq_ok]
  exact exists_congr fun digits => and_congr_right fun _ => ⟨Except.ok.inj, congrArg _⟩

theorem parsed_answerBase : Parsed (answerBase query sourceIds answerText) := by
  refine .dict ⟨?_, ?_⟩ ?_
  · simp [PyKey.isStr]
  · simp [lit_injective.eq_iff]
  · refine parsedItems_iff.mpr fun p hp => ?_
    simp only [List.map_cons, List.map_nil, List.mem_cons, List.not_mem_nil, or_false] at hp
    rcases hp with rfl | rfl | rfl
    · exact .str _
    · refine .list (parsedElems_iff.mpr fun x hx => ?_)
      obtain ⟨t, -, rfl⟩ := List.mem_map.mp hx
      exact .str t
    · exact .str _

theorem insertionSort_eq_iff {l l' : List Str} :
    l.insertionSort (· ≤ ·) = l'.insertionSort (· ≤ ·) ↔ l.Perm l' := by
  constructor
  · intro h
    exact (List.perm_insertionSort _ l).symm.trans (h ▸ List.perm_insertionSort _ l')
  · intro h
    refine List.Perm.eq_of_pairwise (fun a b _ _ hab hba => le_antisymm hab hba)
      (List.pairwise_insertionSort _ l) (List.pairwise_insertionSort _ l') ?_
    exact (List.perm_insertionSort _ l).trans (h.trans (List.perm_insertionSort _ l').symm)

theorem eq_of_sameElems : ∀ {xs ys : List Str}, SameElems (xs.map .str) (ys.map .str) → xs = ys
  | [], [], _ => rfl
  | [], _ :: _, h => by cases h
  | _ :: _, [], h => by cases h
  | x :: xs, y :: ys, h => by
    cases h with
    | cons hxy hrest =>
      cases hxy
      rw [eq_of_sameElems hrest]

/-- The canonical text has all of an answer but the order of its sources. -/
theorem answerBase_injective (h : canonicalJson P (answerBase query sourceIds answerText) =
    canonicalJson P (answerBase query' sourceIds' answerText')) :
    query = query' ∧ answerText = answerText' ∧ sourceIds.Perm sourceIds' := by
  have htree : toJson P.keySort true (answerBase query sourceIds answerText) =
      toJson P.keySort true (answerBase query' sourceIds' answerText') := by
    unfold canonicalJson dumps at h
    rw [sortable_of_parsed _ parsed_answerBase, sortable_of_parsed _ parsed_answerBase,
      if_neg (by simp), if_neg (by simp)] at h
    exact render_injective canonicalStyle rfl (Except.ok.inj h)
  have hsame := same_of_toJson_eq _ _ _ parsed_answerBase parsed_answerBase htree
  have hfield : ∀ (key : String) (v : PyVal),
      (PyKey.str (lit key), v) ∈
      [("query", PyVal.str query),
        ("source_ids", .list ((sourceIds.insertionSort (· ≤ ·)).map .str)),
        ("answer_text", .str answerText)].map (fun p => (PyKey.str (lit p.1), p.2)) →
      ∃ w, (PyKey.str (lit key), w) ∈
        [("query", PyVal.str query'),
          ("source_ids", .list ((sourceIds'.insertionSort (· ≤ ·)).map .str)),
        ("answer_text", .str answerText')].map (fun p => (PyKey.str (lit p.1), p.2)) ∧ Same v w :=
    fun key v hv => same_of_mem hsame hv
  have hquery := hfield "query" (.str query) (by simp)
  have hanswer := hfield "answer_text" (.str answerText) (by simp)
  have hsources :=
    hfield "source_ids" (.list ((sourceIds.insertionSort (· ≤ ·)).map .str)) (by simp)
  simp [lit_injective.eq_iff] at hquery hanswer hsources
  refine ⟨?_, ?_, ?_⟩
  · cases hquery
    rfl
  · cases hanswer
    rfl
  · cases hsources with
    | list helems => exact insertionSort_eq_iff.mp (eq_of_sameElems (by simpa using helems))

/-- **The id is the answer**: the query, the text and the sources in any order, unless the digits of
a hash collide. -/
theorem claimIdForAns_eq_iff
    (hhash : NoCollision P (answerBase query sourceIds answerText)
      (answerBase query' sourceIds' answerText'))
    (hid : claimIdForAns P query sourceIds answerText = .ok id)
    (hid' : claimIdForAns P query' sourceIds' answerText' = .ok id') :
    id = id' ↔ query = query' ∧ answerText = answerText' ∧ sourceIds.Perm sourceIds' := by
  obtain ⟨digits, hdigits, rfl⟩ := claimIdForAns_eq_ok.mp hid
  obtain ⟨digits', hdigits', rfl⟩ := claimIdForAns_eq_ok.mp hid'
  constructor
  · intro heq
    rw [← List.append_cancel_left heq] at hdigits'
    exact answerBase_injective (hhash digits hdigits hdigits')
  · rintro ⟨rfl, rfl, hperm⟩
    have hbase : answerBase query sourceIds answerText =
        answerBase query sourceIds' answerText := by
      unfold answerBase
      rw [insertionSort_eq_iff.mpr hperm]
    rw [hbase, hdigits'] at hdigits
    rw [Except.ok.inj hdigits]

end

/-! ## The time of a source -/

/-- The text is parsed to a time without a zone. -/
def Zoneless (fromisoformat : IsoParser) (text : Str) : Prop :=
  text ≠ [] ∧ ∃ ts, fromisoformat (replaceZ (strip text)) = some ts ∧ ts.aware = false

/-- A band is computed exactly for the times that have a zone, and for what is no time at all. -/
theorem computeFreshness_iff {fromisoformat : IsoParser} {freshDays agingDays now : Int}
    {text : Str} :
    (∃ band, computeFreshness fromisoformat freshDays agingDays now (some text) = .ok band) ↔
    ¬Zoneless fromisoformat text := by
  cases text with
  | nil => exact iff_of_true ⟨.unknown, rfl⟩ fun h => h.1 rfl
  | cons c text =>
    simp only [computeFreshness, Zoneless]
    cases hparse : fromisoformat (replaceZ (strip (c :: text))) with
    | none => simp
    | some ts =>
      cases haware : ts.aware with
      | true =>
        refine iff_of_true ⟨_, bind_eq_ok.mpr ⟨_, if_pos haware.symm, rfl⟩⟩
          fun ⟨_, t, ht, hnaive⟩ => ?_
        rw [← Option.some.inj ht, haware] at hnaive
        cases hnaive
      | false =>
        -- The time of now has a zone, so the subtraction raises.
        have hraise : isoDiff ⟨true, now⟩ ts = .error .typeError := if_neg (by simp [haware])
        refine iff_of_false (fun ⟨band, hband⟩ => ?_) fun h => h ⟨by simp, ts, rfl, haware⟩
        obtain ⟨_, hdiff, -⟩ := bind_eq_ok.mp hband
        rw [hraise] at hdiff
        cases hdiff

/-- **What an answer is checked for**: its id is its content and the order of the lists is
immaterial. A supporting verdict is supported unless the sources are overcounted, and a source has
an age unless its time has no zone. -/
theorem answer_law (P : Platform) (search : Search) (fromisoformat : IsoParser)
    (freshDays agingDays now : Int) :
    (∀ query query' sourceIds sourceIds' answerText answerText' id id',
      NoCollision P (answerBase query sourceIds answerText)
      (answerBase query' sourceIds' answerText') →
      claimIdForAns P query sourceIds answerText = .ok id →
        claimIdForAns P query' sourceIds' answerText' = .ok id' →
      (id = id' ↔ query = query' ∧ answerText = answerText' ∧ sourceIds.Perm sourceIds')) ∧
    (∀ sources sources' citations citations' answerText, sources.Perm sources' →
      citations.Perm citations' → (outputGuardrail search sources citations answerText).toOption =
        (outputGuardrail search sources' citations' answerText).toOption) ∧
    (∀ sources citations answerText,
      ((∀ check, outputGuardrail search sources citations answerText = .ok check →
        check.verdict = .supporting →
        Supported sources citations) ↔ ¬Overcounted search sources citations answerText) ∧
      (Overcounted search sources citations answerText →
        (∃ s ∈ sources, s.sourceId = .none ∧ ∃ c ∈ citations, c.sourceId = .none) ∨
        2 ^ 53 ≤ sources.length)) ∧
    ∀ sourceTs,
      (∃ band, computeFreshness fromisoformat freshDays agingDays now (some sourceTs) = .ok band) ↔
      ¬Zoneless fromisoformat sourceTs :=
  ⟨fun _ _ _ _ _ _ _ _ hhash hid hid' => claimIdForAns_eq_iff hhash hid hid',
    fun _ _ _ _ _ hs hc => outputGuardrail_perm hs hc,
    fun _ _ _ => ⟨supported_iff, Overcounted.cause⟩,
    fun _ => computeFreshness_iff⟩

/-- A parser of one date, without a zone. -/
def midnightParser : IsoParser :=
  fun text => if text = lit "2026-01-01T00:00:00" then some ⟨false, 1767225600000000⟩ else none

/-- **Not every time gives a band**: one without a zone cannot be subtracted from now. -/
theorem zoneless_raises : ¬∀ (fromisoformat : IsoParser) (freshDays agingDays now : Int)
    (sourceTs : Str),
    ∃ band, computeFreshness fromisoformat freshDays agingDays now (some sourceTs) = .ok band := by
  intro h
  obtain ⟨band, hband⟩ := h midnightParser 30 90 0 (lit "2026-01-01T00:00:00")
  have hraised : computeFreshness midnightParser 30 90 0 (some (lit "2026-01-01T00:00:00")) =
      .error .typeError := by
    decide +kernel
  rw [hraised] at hband
  cases hband

end Conversation
