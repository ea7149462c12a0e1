import Msb.Conversation.Registry
import Msb.Infra.Run

/-!
# The history of a claim

Any number of calls of the two producers on one ledger directory, which starts empty. The state
keeps the artifacts ingested so far next to the files, so that an entry can be compared with what it
was built from.

The lists and the verdict of an entry are always right. The times are not: an entry takes over the
times of the negative evidence only, and no entry ever has a first time of inconclusive evidence.
They stay right exactly as long as no record is ingested that would need the others (`KeepsTimes`).

* `built_history` — the lists and the verdict of an entry, for any sequence of artifacts
* `stamped_next_iff` — when a new entry has the right times
* `run_history` — both, for every run
-/

namespace Conversation

open Py Ledger Machine

/-! ## The times of an entry -/

/-- A time, read from the entry as it is written. -/
def ClaimEntry.timeAt (e : ClaimEntry) (key : String) : Option Str :=
  match get e.dict key with
  | .ok (.str s) => some s
  | _ => none

def firstKey : Polarity → String
  | .supporting => "first_supporting_evidence_at"
  | .inconclusive => "first_inconclusive_evidence_at"
  | .contradicting => "first_negative_evidence_at"

def lastKey : Polarity → String
  | .supporting => "last_supporting_evidence_at"
  | .inconclusive => "last_inconclusive_evidence_at"
  | .contradicting => "last_negative_evidence_at"

def ClaimEntry.evidence (e : ClaimEntry) : Polarity → List Str
  | .supporting => e.supportingEvidence
  | .inconclusive => e.inconclusiveEvidence
  | .contradicting => e.negativeEvidence

/-- The artifacts of one polarity, in the order of their ingestion. -/
def ofPolarity (polarity : Polarity) (as : List Artifact) : List Artifact :=
  as.filter fun a => a.polarity = polarity

/-- **The lists and the verdict of an entry**, against the artifacts of its claim. -/
structure History (as : List Artifact) (e : ClaimEntry) : Prop where
  known : e.verdict ≠ .supported ∧ e.verdict ≠ .validated
  evidence : ∀ polarity id, id ∈ e.evidence polarity ↔ ∃ a ∈ as, a.polarity = polarity ∧
    a.evidenceId = id
  nodup : ∀ polarity, (e.evidence polarity).Nodup
  verified : e.verdict = .verified →
    e.supportingEvidence ≠ [] ∧ e.negativeEvidence = [] ∧ ∃ a, as.getLast? = some a ∧
    a.polarity = .supporting
  contested : e.verdict = .contested → e.supportingEvidence ≠ [] ∧ e.negativeEvidence ≠ []
  unverified : e.verdict = .unverified → e.supportingEvidence = []
  regressed : e.verdict = .regressed → e.supportingEvidence ≠ []

/-- **The times of an entry** are those of the first and of the last artifact of each polarity. -/
structure Stamped (as : List Artifact) (e : ClaimEntry) : Prop where
  first : ∀ polarity, e.timeAt (firstKey polarity) = (ofPolarity polarity as).head?.map
    Artifact.timestamp
  last : ∀ polarity, e.timeAt (lastKey polarity) = (ofPolarity polarity as).getLast?.map
    Artifact.timestamp

/-! ## Runs -/

/-- A call of a producer. -/
structure Call where
  producer : Producer
  record : PyVal
  gitHead : Str
  dryRun : Bool
  /-- What writing the artifact raises. -/
  fault : Option PyError

/-- The ledger, and the artifacts ingested so far. -/
structure State where
  dir : LedgerDir
  ingested : List Artifact

def State.start : State := ⟨.empty, []⟩

/-- The artifacts of a claim. -/
def State.of (s : State) (claimId : Str) : List Artifact :=
  s.ingested.filter fun a => a.claimId = claimId

section

variable (P : Platform) (lib : Texts)

/-- A call that raises changes nothing. -/
def step (s : State) (call : Call) : Option State :=
  match produce P lib call.producer call.record s.dir call.gitHead call.dryRun call.fault with
  | .error _ => some s
  | .ok (result, dir) =>
    some ⟨dir, if result.ingested ∧ call.dryRun = false then s.ingested ++ [result.artifact]
      else s.ingested⟩

/-- The call is for the record `p`, and the record is ingested. -/
structure Ingests (s : State) (call : Call) (p : Prepared) : Prop where
  prepared : call.producer.prepare P lib call.record call.gitHead = .ok p
  ingestible : Ingestible p s.dir call.dryRun call.fault

/-- The artifact `a` leaves the times of its claim right, after the artifacts `as`: it is not
inconclusive, no supporting one has come before it, and where it is a further one of its polarity,
the first one had a time (a supporting one after a supporting one only where both have none). -/
def KeepsTimes (as : List Artifact) (a : Artifact) : Prop :=
  match a.polarity with
  | .supporting =>
    ∀ b, (ofPolarity .supporting as).head? = some b → b.timestamp = [] ∧ a.timestamp = []
  | .inconclusive => False
  | .contradicting => ofPolarity .supporting as = [] ∧
      ∀ b, (ofPolarity .contradicting as).head? = some b → b.timestamp = [] → a.timestamp = []

/-- The condition on a call. -/
def Keeps (s : State) (call : Call) : Prop :=
  ∀ p, Ingests P lib s call p → KeepsTimes (s.of p.artifact.claimId) p.artifact

end

/-! ## One claim -/

/-- The entry that the artifacts of a claim lead to, one after the other. -/
inductive Built : List Artifact → Option ClaimEntry → Prop where
  | none : Built [] none
  | next {as : List Artifact} {prior : Option ClaimEntry} (p : Prepared) (h : Built as prior) :
      Built (as ++ [p.artifact]) (some (claimEntry p prior))

section

variable {as : List Artifact} {a : Artifact} {prior : Option ClaimEntry} {e : ClaimEntry}
  {p : Prepared}

theorem ofPolarity_concat (polarity : Polarity) :
    ofPolarity polarity (as ++ [a]) = ofPolarity polarity as ++ if a.polarity = polarity then [a]
    else [] := by
  unfold ofPolarity
  rw [List.filter_append, List.filter_singleton]
  by_cases h : a.polarity = polarity
  · simp [h]
  · simp [h]

/-- The evidence of one polarity grows by the new artifact. -/
theorem mem_claimEntry_evidence (polarity : Polarity) (id : Str) :
    id ∈ (claimEntry p prior).evidence polarity ↔
      (∃ e, prior = some e ∧ id ∈ e.evidence polarity) ∨
      (p.artifact.polarity = polarity ∧ p.artifact.evidenceId = id) := by
  unfold claimEntry
  cases prior with
  | none =>
    cases hp : p.artifact.polarity <;> cases polarity <;> simp [ClaimEntry.evidence, eq_comm]
  | some e =>
    cases hp : p.artifact.polarity <;> cases polarity <;> simp [ClaimEntry.evidence, eq_comm]

theorem nodup_claimEntry_evidence (h : ∀ e, prior = some e → ∀ polarity,
    (e.evidence polarity).Nodup)
    (polarity : Polarity) : ((claimEntry p prior).evidence polarity).Nodup := by
  have hprior : ∀ f : ClaimEntry → List Str, (∀ e, prior = some e → (f e).Nodup) →
      (prior.elim [] f).Nodup := by
    intro f hf
    cases prior with
    | none => exact List.nodup_nil
    | some e => exact hf e rfl
  unfold claimEntry
  cases p.artifact.polarity <;> cases polarity
  all_goals first
    | exact nodup_sortedSet
    | exact hprior _ fun e he => h e he .supporting
    | exact hprior _ fun e he => h e he .inconclusive
    | exact hprior _ fun e he => h e he .contradicting

theorem evidence_eq_nil (polarity : Polarity) : (claimEntry p prior).evidence polarity = [] ↔
    (∀ e, prior = some e → e.evidence polarity = []) ∧ p.artifact.polarity ≠ polarity := by
  simp only [List.eq_nil_iff_forall_not_mem, mem_claimEntry_evidence]
  constructor
  · intro h
    exact ⟨fun e he id hid => h id (.inl ⟨e, he, hid⟩), fun hp => h _ (.inr ⟨hp, rfl⟩)⟩
  · rintro ⟨he, hp⟩ id (⟨e, hprior, hid⟩ | ⟨hpolarity, -⟩)
    · exact he e hprior id hid
    · exact hp hpolarity

/-- An entry that was supported before has supporting evidence. -/
theorem History.of_previouslyVerified (h : History as e)
    (he : e.verdict.previouslyVerified = true) : e.supportingEvidence ≠ [] := by
  cases hverdict : e.verdict with
  | verified => exact (h.verified hverdict).1
  | regressed => exact h.regressed hverdict
  | supported => exact absurd hverdict h.known.1
  | validated => exact absurd hverdict h.known.2
  | contested => exact (h.contested hverdict).1
  | unverified =>
    rw [hverdict] at he
    cases he

theorem History.of_unverified (h : History as e) (hold : ¬ e.verdict.previouslyVerified = true)
    (hcontested : e.verdict ≠ .contested) : e.supportingEvidence = [] := by
  cases hverdict : e.verdict with
  | unverified => exact h.unverified hverdict
  | contested => exact absurd hverdict hcontested
  | _ =>
    rw [hverdict] at hold
    exact absurd rfl hold

/-- The verdict of the new entry. -/
theorem verdict_next (hprior : ∀ e, prior = some e → History as e) :
    match verdictFor prior p.artifact.polarity with
    | .verified => p.artifact.polarity = .supporting ∧ ∀ e, prior = some e → e.negativeEvidence = []
    | .contested =>
      ∃ e, prior = some e ∧ (p.artifact.polarity ≠ .supporting → e.supportingEvidence ≠ []) ∧
        e.negativeEvidence ≠ []
    | .unverified =>
      p.artifact.polarity ≠ .supporting ∧ ∀ e, prior = some e → e.supportingEvidence = []
    | .regressed => ∃ e, prior = some e ∧ e.supportingEvidence ≠ []
    | .supported | .validated => False := by
  cases prior with
  | none => cases hp : p.artifact.polarity <;> simp [verdictFor]
  | some e =>
    have h := hprior e rfl
    -- an inconclusive artifact is judged like one that contradicts
    have hattacked : p.artifact.polarity ≠ .supporting →
        verdictFor (some e) p.artifact.polarity =
          if e.verdict.previouslyVerified then .regressed
          else if e.verdict = .contested then .contested
          else .unverified := by
      intro hne
      cases hp : p.artifact.polarity with
      | supporting => exact absurd hp hne
      | _ => rfl
    by_cases hp : p.artifact.polarity = .supporting
    · rw [hp]
      simp only [verdictFor]
      by_cases hcontested : e.verdict = .contested
      · rw [if_pos hcontested]
        exact ⟨e, rfl, fun hne => absurd rfl hne, (h.contested hcontested).2⟩
      · rw [if_neg hcontested]
        by_cases hnegative : e.negativeEvidence ≠ []
        · rw [if_pos hnegative]
          exact ⟨e, rfl, fun hne => absurd rfl hne, hnegative⟩
        · rw [if_neg hnegative]
          refine ⟨trivial, ?_⟩
          rintro _ ⟨⟩
          exact not_not.mp hnegative
    · rw [hattacked hp]
      by_cases hold : e.verdict.previouslyVerified = true
      · rw [if_pos hold]
        exact ⟨e, rfl, h.of_previouslyVerified hold⟩
      · rw [if_neg hold]
        by_cases hcontested : e.verdict = .contested
        · rw [if_pos hcontested]
          exact ⟨e, rfl, fun _ => (h.contested hcontested).1, (h.contested hcontested).2⟩
        · rw [if_neg hcontested]
          refine ⟨hp, ?_⟩
          rintro _ ⟨⟩
          exact h.of_unverified hold hcontested

/-- One more artifact. -/
theorem History.next (hprior : ∀ e, prior = some e → History as e)
    (hnone : prior = none → as = []) : History (as ++ [p.artifact]) (claimEntry p prior) := by
  have hverdict := verdict_next hprior (p := p)
  have hempty (polarity : Polarity) : (claimEntry p prior).evidence polarity = [] ↔
      (∀ e, prior = some e → e.evidence polarity = []) ∧ p.artifact.polarity ≠ polarity :=
      evidence_eq_nil polarity
  have hsupporting := hempty .supporting
  have hnegative := hempty .contradicting
  constructor
  case known =>
    rw [claimEntry_verdict]
    constructor <;> intro h <;> rw [h] at hverdict <;> exact hverdict
  case evidence =>
    intro polarity id
    rw [mem_claimEntry_evidence]
    have hold : (∃ e, prior = some e ∧ id ∈ e.evidence polarity) ↔
        ∃ a ∈ as, a.polarity = polarity ∧ a.evidenceId = id := by
      cases prior with
      | none =>
        rw [hnone rfl]
        simp
      | some e => simpa using (hprior e rfl).evidence polarity id
    rw [hold]
    simp [or_and_right, exists_or]
  case nodup => exact nodup_claimEntry_evidence fun e he => (hprior e he).nodup
  case verified =>
    intro h
    rw [claimEntry_verdict] at h
    rw [h] at hverdict
    obtain ⟨hp, hclean⟩ := hverdict
    refine ⟨fun hnil => (hsupporting.mp hnil).2 hp, hnegative.mpr ⟨hclean, ?_⟩,
      p.artifact, by simp, hp⟩
    rw [hp]
    decide
  case contested =>
    intro h
    rw [claimEntry_verdict] at h
    rw [h] at hverdict
    obtain ⟨e, he, hsupported, hattacked⟩ := hverdict
    refine ⟨fun hnil => ?_, fun hnil => hattacked ((hnegative.mp hnil).1 e he)⟩
    obtain ⟨hold, hne⟩ := hsupporting.mp hnil
    exact hsupported hne (hold e he)
  case unverified =>
    intro h
    rw [claimEntry_verdict] at h
    rw [h] at hverdict
    exact hsupporting.mpr ⟨hverdict.2, hverdict.1⟩
  case regressed =>
    intro h
    rw [claimEntry_verdict] at h
    rw [h] at hverdict
    obtain ⟨e, he, hsupported⟩ := hverdict
    exact fun hnil => hsupported ((hsupporting.mp hnil).1 e he)

/-- **The lists and the verdict are right** after any sequence of artifacts. -/
theorem built_history (h : Built as prior) :
    (prior = none → as = []) ∧ ∀ e, prior = some e → History as e := by
  induction h with
  | none => exact ⟨fun _ => rfl, fun e he => by cases he⟩
  | next p _ ih =>
    refine ⟨fun he => by (cases he), ?_⟩
    rintro _ ⟨⟩
    exact History.next ih.2 ih.1

/-! ### The times -/

theorem timeAt_firstKey (e : ClaimEntry) (polarity : Polarity) : e.timeAt (firstKey polarity) =
    match polarity with
    | .supporting => e.firstSupportingEvidenceAt
    | .inconclusive => none
    | .contradicting => e.firstNegativeEvidenceAt := by
  obtain ⟨_, _, _, _, _, _, _, _, firstNegative, lastNegative, firstSupporting, lastSupporting,
    lastInconclusive⟩ := e
  cases polarity
  · cases firstSupporting <;> cases lastSupporting <;> cases lastInconclusive <;> rfl
  · cases firstSupporting <;> cases lastSupporting <;> cases lastInconclusive <;> rfl
  · cases firstNegative <;> rfl

theorem timeAt_lastKey (e : ClaimEntry) (polarity : Polarity) : e.timeAt (lastKey polarity) =
    match polarity with
    | .supporting => e.lastSupportingEvidenceAt
    | .inconclusive => e.lastInconclusiveEvidenceAt
    | .contradicting => e.lastNegativeEvidenceAt := by
  obtain ⟨_, _, _, _, _, _, _, _, firstNegative, lastNegative, firstSupporting, lastSupporting,
    lastInconclusive⟩ := e
  cases polarity
  · cases firstSupporting <;> cases lastSupporting <;> cases lastInconclusive <;> rfl
  · cases firstSupporting <;> cases lastSupporting <;> cases lastInconclusive <;> rfl
  · cases lastNegative <;> rfl

/-- The times that the artifacts give. -/
def firstTime (polarity : Polarity) (as : List Artifact) : Option Str :=
  (ofPolarity polarity as).head?.map Artifact.timestamp

def lastTime (polarity : Polarity) (as : List Artifact) : Option Str :=
  (ofPolarity polarity as).getLast?.map Artifact.timestamp

theorem firstTime_concat (polarity : Polarity) : firstTime polarity (as ++ [a]) =
    (firstTime polarity as).or (if a.polarity = polarity then some a.timestamp else none) := by
  unfold firstTime
  rw [ofPolarity_concat, List.head?_append]
  by_cases h : a.polarity = polarity
  · rw [if_pos h, if_pos h]
    cases (ofPolarity polarity as).head? <;> rfl
  · rw [if_neg h, if_neg h]
    cases (ofPolarity polarity as).head? <;> rfl

theorem lastTime_concat (polarity : Polarity) : lastTime polarity (as ++ [a]) =
    if a.polarity = polarity then some a.timestamp else lastTime polarity as := by
  unfold lastTime
  rw [ofPolarity_concat]
  by_cases h : a.polarity = polarity
  · rw [if_pos h, if_pos h, List.getLast?_concat]
    rfl
  · rw [if_neg h, if_neg h, List.append_nil]

theorem firstTime_eq_none (polarity : Polarity) :
    firstTime polarity as = none ↔ ofPolarity polarity as = [] := by
  unfold firstTime
  rw [Option.map_eq_none_iff, List.head?_eq_none_iff]

theorem lastTime_eq_none (polarity : Polarity) :
    lastTime polarity as = none ↔ ofPolarity polarity as = [] := by
  unfold lastTime
  rw [Option.map_eq_none_iff, List.getLast?_eq_none_iff]

/-- What the new entry takes over, where the times before it are right. -/
structure PriorTimes (as : List Artifact) (prior : Option ClaimEntry) : Prop where
  firstSupporting : prior.bind ClaimEntry.firstSupportingEvidenceAt = firstTime .supporting as
  firstNegative : prior.bind ClaimEntry.firstNegativeEvidenceAt = firstTime .contradicting as
  lastNegative : prior.bind ClaimEntry.lastNegativeEvidenceAt = lastTime .contradicting as
  inconclusive : ofPolarity .inconclusive as = []

theorem priorTimes (hprior : ∀ e, prior = some e → Stamped as e) (hnone : prior = none → as = []) :
    PriorTimes as prior := by
  cases prior with
  | none =>
    obtain rfl := hnone rfl
    exact ⟨rfl, rfl, rfl, rfl⟩
  | some e =>
    have h := hprior e rfl
    have hfirst := fun polarity => (timeAt_firstKey e polarity).symm.trans (h.first polarity)
    have hlast := fun polarity => (timeAt_lastKey e polarity).symm.trans (h.last polarity)
    -- no entry has a first time of inconclusive evidence
    exact ⟨hfirst .supporting, hfirst .contradicting, hlast .contradicting,
      (firstTime_eq_none _).mp (hfirst .inconclusive).symm⟩

/-- A first time that is set stays, and is overwritten where it is empty. -/
theorem firstSupporting_iff {t : Str} :
    (if isSet (firstTime .supporting as) then none else some t) =
    (firstTime .supporting as).or (some t) ↔
      ∀ b, (ofPolarity .supporting as).head? = some b → b.timestamp = [] ∧ t = [] := by
  unfold firstTime
  cases (ofPolarity .supporting as).head? with
  | none => simp [isSet]
  | some b =>
    by_cases hb : b.timestamp = []
    · simp [isSet, hb]
    · simp [isSet, hb]

theorem firstNegative_iff {t : Str} :
    (if isSet (firstTime .contradicting as) then firstTime .contradicting as else some t) =
      (firstTime .contradicting as).or (some t) ↔
        ∀ b, (ofPolarity .contradicting as).head? = some b → b.timestamp = [] → t = [] := by
  unfold firstTime
  cases (ofPolarity .contradicting as).head? with
  | none => simp [isSet]
  | some b =>
    by_cases hb : b.timestamp = []
    · simp [isSet, hb]
    · simp [isSet, hb]

/-- **When the new entry has the right times.** -/
theorem stamped_next_iff (h : PriorTimes as prior) :
    Stamped (as ++ [p.artifact]) (claimEntry p prior) ↔ KeepsTimes as p.artifact := by
  have hiff : Stamped (as ++ [p.artifact]) (claimEntry p prior) ↔
      ∀ polarity, (claimEntry p prior).timeAt (firstKey polarity) = firstTime polarity
      (as ++ [p.artifact]) ∧
        (claimEntry p prior).timeAt (lastKey polarity) = lastTime polarity (as ++ [p.artifact]) :=
    ⟨fun hs polarity => ⟨hs.first polarity, hs.last polarity⟩, fun hs =>
      ⟨fun q => (hs q).1, fun q => (hs q).2⟩⟩
  have hall : ∀ Q : Polarity → Prop, (∀ polarity, Q polarity) ↔ Q .supporting ∧ Q .inconclusive ∧
      Q .contradicting :=
    fun Q => ⟨fun hQ => ⟨hQ _, hQ _, hQ _⟩,
      fun hQ polarity => by cases polarity; exacts [hQ.1, hQ.2.1, hQ.2.2]⟩
  rw [hiff, hall]
  simp only [timeAt_firstKey, timeAt_lastKey, firstTime_concat, lastTime_concat]
  have hfirstInconclusive := (firstTime_eq_none .inconclusive).mpr h.inconclusive
  have hlastInconclusive := (lastTime_eq_none .inconclusive).mpr h.inconclusive
  unfold claimEntry KeepsTimes
  cases hp : p.artifact.polarity with
  | supporting =>
    simp only [h.firstSupporting, h.firstNegative, h.lastNegative, hfirstInconclusive,
      hlastInconclusive, if_true,
      reduceCtorEq, if_false, Option.or_none, and_true, firstSupporting_iff]
  | inconclusive =>
    -- the key that would hold the first time is not written
    refine ⟨fun hall => ?_, False.elim⟩
    have hnone : none = (firstTime .inconclusive as).or (some p.artifact.timestamp) := by
      simpa using hall.2.1.1
    rw [hfirstInconclusive] at hnone
    cases hnone
  | contradicting =>
    simp only [h.firstNegative, hfirstInconclusive, hlastInconclusive, if_true,
      reduceCtorEq, if_false, Option.or_none, and_true, true_and, firstNegative_iff]
    refine and_congr_left fun _ => ?_
    rw [@eq_comm _ none, @eq_comm _ none, firstTime_eq_none, lastTime_eq_none, and_self]

end

/-! ## Every run -/

section

variable {P : Platform} {lib : Texts} {s t : State} {call : Call} {calls : List Call}

/-- The files after the record is ingested. -/
def State.ingest (s : State) (p : Prepared) : State :=
  ⟨Conversation.ingest.next p s.dir (claimEntry p (byId s.dir.claims p.artifact.claimId)),
    s.ingested ++ [p.artifact]⟩

theorem step_ingests {p : Prepared} (h : Ingests P lib s call p) :
    step P lib s call = some (s.ingest p) := by
  obtain ⟨result, hingest, hingested, hartifact⟩ := ingest_of_ingestible h.ingestible
  have hproduce : produce P lib call.producer call.record s.dir call.gitHead call.dryRun
      call.fault = .ok (result, _) :=
    bind_eq_ok.mpr ⟨p, h.prepared, hingest⟩
  unfold step State.ingest
  simp only [hproduce]
  rw [if_pos ⟨hingested, h.ingestible.writes⟩, hartifact]

/-- A call ingests its record, or changes nothing. -/
theorem step_cases (h : step P lib s call = some t) :
    t = s ∨ ∃ p, Ingests P lib s call p ∧ t = s.ingest p := by
  cases hproduce : produce P lib call.producer call.record s.dir call.gitHead call.dryRun
    call.fault with
  | error e =>
    unfold step at h
    rw [hproduce] at h
    exact .inl (Option.some.inj h).symm
  | ok out =>
    obtain ⟨p, hprepare, hingest⟩ := bind_eq_ok.mp hproduce
    rcases ingest_cases hingest with hingestible | ⟨hdir, hkept⟩
    · have hingests : Ingests P lib s call p := ⟨hprepare, hingestible⟩
      exact .inr ⟨p, hingests, Option.some.inj (h.symm.trans (step_ingests hingests))⟩
    · unfold step at h
      rw [hproduce] at h
      simp only [hdir, if_neg hkept] at h
      exact .inl (Option.some.inj h).symm

/-- The entry of each claim comes from the artifacts of the claim. -/
structure Traced (s : State) : Prop where
  unique : UniqueClaims s.dir.claims
  built : ∀ c, Built (s.of c) (byId s.dir.claims c)

theorem traced_start : Traced .start := ⟨Keyed.unique_nil, fun _ => .none⟩

theorem of_ingest (c : Str) (p : Prepared) :
    (s.ingest p).of c = if c = p.artifact.claimId then s.of c ++ [p.artifact] else s.of c := by
  unfold State.of State.ingest
  rw [List.filter_append, List.filter_singleton]
  by_cases h : c = p.artifact.claimId
  · rw [if_pos h]
    simp [h]
  · rw [if_neg h]
    simp [Ne.symm h]

theorem byId_ingest (h : UniqueClaims s.dir.claims) (c : Str) (p : Prepared) :
    byId (s.ingest p).dir.claims c =
    if c = p.artifact.claimId then some (claimEntry p (byId s.dir.claims p.artifact.claimId))
    else byId s.dir.claims c := by
  show byId (putEntry _ _) c = _
  rw [byId_putEntry h, claimEntry_claimId]

theorem Traced.ingest (h : Traced s) (p : Prepared) : Traced (s.ingest p) := by
  refine ⟨h.unique.put, fun c => ?_⟩
  rw [of_ingest, byId_ingest h.unique]
  by_cases hc : c = p.artifact.claimId
  · rw [if_pos hc, if_pos hc, hc]
    exact .next p (h.built _)
  · rw [if_neg hc, if_neg hc]
    exact h.built c

theorem Traced.step (h : Traced s) (hstep : Conversation.step P lib s call = some t) :
    Traced t := by
  rcases step_cases hstep with rfl | ⟨p, -, rfl⟩
  · exact h
  · exact h.ingest p

theorem run_traced (h : run (step P lib) .start calls = some s) : Traced s :=
  run_invariant (fun _ _ _ ht hstep => ht.step hstep) traced_start h

theorem Traced.mem (h : Traced s) {e : ClaimEntry} (he : e ∈ s.dir.claims) :
    byId s.dir.claims e.claimId = some e :=
  (Keyed.find_eq_some h.unique).mpr ⟨he, rfl⟩

/-- Every entry has the right times. -/
def TimesRight (s : State) : Prop := ∀ e ∈ s.dir.claims, Stamped (s.of e.claimId) e

theorem Traced.timesRight_iff (h : Traced s) :
    TimesRight s ↔ ∀ c e, byId s.dir.claims c = some e → Stamped (s.of c) e := by
  constructor
  · intro hs c e he
    obtain ⟨hmem, rfl⟩ := Keyed.find_key he
    exact hs e hmem
  · exact fun hs e he => hs e.claimId e (h.mem he)

/-- **One more record**: the times stay right exactly where the record keeps them. -/
theorem Traced.timesRight_ingest (h : Traced s) (hright : TimesRight s) (p : Prepared) :
    TimesRight (s.ingest p) ↔ KeepsTimes (s.of p.artifact.claimId) p.artifact := by
  have hprior :=
    priorTimes (h.timesRight_iff.mp hright p.artifact.claimId) (built_history (h.built _)).1
  rw [(h.ingest p).timesRight_iff, ← stamped_next_iff hprior]
  constructor
  · intro hs
    have hnew := hs p.artifact.claimId (claimEntry p (byId s.dir.claims p.artifact.claimId))
      (by rw [byId_ingest h.unique, if_pos rfl])
    rwa [of_ingest, if_pos rfl] at hnew
  · intro hnew c e he
    rw [byId_ingest h.unique] at he
    rw [of_ingest]
    by_cases hc : c = p.artifact.claimId
    · rw [if_pos hc] at he
      rw [if_pos hc, hc, ← Option.some.inj he]
      exact hnew
    · rw [if_neg hc] at he
      rw [if_neg hc]
      exact h.timesRight_iff.mp hright c e he

/-- A call keeps the times right exactly where it meets the condition. -/
theorem Traced.timesRight_step (h : Traced s) (hright : TimesRight s)
    (hstep : Conversation.step P lib s call = some t) : TimesRight t ↔ Keeps P lib s call := by
  rcases step_cases hstep with rfl | ⟨p, hp, rfl⟩
  · refine iff_of_true hright fun p hp => ?_
    -- a call that ingests its record changes the ledger
    have hgrown :=
      congrArg (fun u => u.ingested.length) (Option.some.inj (hstep.symm.trans (step_ingests hp)))
    simp [State.ingest] at hgrown
  · rw [h.timesRight_ingest hright p]
    refine ⟨fun hkeeps q hq => ?_, fun hkeeps => hkeeps p hp⟩
    rw [Except.ok.inj (hq.prepared.symm.trans hp.prepared)]
    exact hkeeps

theorem step_total (P : Platform) (lib : Texts) (s : State) (call : Call) :
    ∃ t, step P lib s call = some t := by
  unfold step
  split
  · exact ⟨_, rfl⟩
  · exact ⟨_, rfl⟩

/-- **Every run from the empty ledger.** The lists and the verdict of every entry are right. The
times are right in every state on the way exactly where every call that ingests a record keeps them.
-/
theorem run_history (h : run (step P lib) .start calls = some s) :
    (∀ e ∈ s.dir.claims, History (s.of e.claimId) e) ∧
      ((∀ es t, es <+: calls → run (step P lib) .start es = some t → TimesRight t) ↔
        Along (step P lib) (Keeps P lib) .start calls) := by
  constructor
  · intro e he
    have htraced := run_traced h
    exact (built_history (htraced.built e.claimId)).2 e (htraced.mem he)
  · refine along_iff_reached (I := Traced) ?_ traced_start fun e he => absurd he List.not_mem_nil
    intro call _ t ht hright
    obtain ⟨u, hu⟩ := step_total P lib t call
    exact ⟨u, hu, ht.step hu, ht.timesRight_step hright hu⟩

end

/-! ## A run on two answers -/

/-- A platform whose digests are the texts, backwards. -/
def backwards : Platform := ⟨KeySort.insertion, List.reverse⟩

/-- `str` on texts. -/
def Texts.plain : Texts where
  str v := match v with
    | .str s => s
    | _ => []
  repr _ := []
  str_text _ := rfl

/-- An answer with no sources. -/
def answerRecord (traceId verdict recordedAt : String) : PyVal :=
  object [("record_version", .str (lit "1.0")), ("trace_id", .str (lit traceId)),
    ("mode", .str (lit "chat")),
    ("query", .str (lit "q")), ("status", .str (lit "answered")), ("input_guardrail", .dict []),
    ("output_guardrail", object [("verdict", .str (lit verdict))]), ("sources", .list []),
    ("answer", object [("text", .str (lit "a"))]), ("latency_ms", .int 1),
      ("git_head", .str (lit "c0")),
    ("recorded_at", .str (lit recordedAt))]

def answerCall (traceId verdict recordedAt : String) : Call :=
  ⟨.conversation, answerRecord traceId verdict recordedAt, lit "c0", false, none⟩

theorem run_history_answers : ∃ s, run (step backwards .plain) .start
      [answerCall "t1" "SUPPORTING" "09:00", answerCall "t2" "UNSUPPORTED" "10:00"] = some s ∧
    (s.dir.claims.map ClaimEntry.verdict = [.regressed] ∧ ∀ e ∈ s.dir.claims,
        History (s.of e.claimId) e) := by
  have hrun : (run (step backwards .plain) .start
      [answerCall "t1" "SUPPORTING" "09:00", answerCall "t2" "UNSUPPORTED" "10:00"]).map
        (fun s => s.dir.claims.map ClaimEntry.verdict) = some [.regressed] := by decide +kernel
  obtain ⟨s, hs, hverdicts⟩ := Option.map_eq_some_iff.mp hrun
  exact ⟨s, hs, hverdicts, (run_history hs).1⟩

/-- The answer is given twice, at 09:00 and at 10:00. The entry has no first time of supporting
evidence then. -/
theorem not_run_history : ¬ ∀ (P : Platform) (lib : Texts) (calls : List Call) (s : State),
    run (step P lib) .start calls = some s → (s.ingested.map Artifact.evidenceId).Nodup →
      ∀ e ∈ s.dir.claims, History (s.of e.claimId) e ∧ Stamped (s.of e.claimId) e := by
  intro h
  have hrun : (run (step backwards .plain) .start
      [answerCall "t1" "SUPPORTING" "09:00", answerCall "t2" "SUPPORTING" "10:00"]).map
        (fun s => (s.dir.claims.map fun e =>
          (e.timeAt (firstKey .supporting), firstTime .supporting (s.of e.claimId)),
          decide (s.ingested.map Artifact.evidenceId).Nodup)) =
          some ([(none, some (lit "09:00"))], true) := by
    decide +kernel
  obtain ⟨s, hs, hshape⟩ := Option.map_eq_some_iff.mp hrun
  obtain ⟨hclaims, hnodup⟩ := Prod.mk.inj hshape
  obtain ⟨e, he, htimes⟩ := List.map_eq_singleton_iff.mp hclaims
  obtain ⟨hentry, hfirst⟩ := Prod.mk.inj htimes
  have hstamped :=
    (h _ _ _ s hs (of_decide_eq_true hnodup) e (by rw [he]; exact List.mem_singleton_self e)).2
  have hnone : none = firstTime .supporting (s.of e.claimId) :=
    hentry.symm.trans (hstamped.first .supporting)
  rw [hfirst] at hnone
  cases hnone

end Conversation
