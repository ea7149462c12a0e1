import Msb.Conversation.ClaimHistory

/-!
# A record that is ingested already

`produce` answers for a record whose hash is in the cursor without a write. The verdict that it
returns is not the one of the entry: it is the verdict that the entry would get if the record came
once more.

* `ingest_replayed` — the answer for a record in the cursor
* `replay_truthful_iff` — when it is the verdict of the entry
-/

namespace Conversation

open Py Ledger Machine

/-- The verdict of the entry is the one that a record of this polarity gives it again. -/
def Settles (e : ClaimEntry) : Polarity → Prop
  | .supporting => e.verdict = .contested ∨ e.verdict = .verified
  | .inconclusive | .contradicting => e.verdict ≠ .verified

/-- What the entries of a run look like, as far as `_verdict_for` asks. -/
theorem settles_iff {as : List Artifact} {e : ClaimEntry} (h : History as e) (polarity : Polarity) :
    verdictFor (some e) polarity = e.verdict ↔ Settles e polarity := by
  cases polarity with
  | supporting =>
    show (if e.verdict = .contested then _ else if e.negativeEvidence ≠ [] then _ else _) =
      e.verdict ↔ _
    by_cases hcontested : e.verdict = .contested
    · simp [Settles, hcontested]
    · by_cases hnegative : e.negativeEvidence = []
      · simp [Settles, hcontested, hnegative, eq_comm]
      · have hunverified : e.verdict ≠ .verified :=
          fun hverified => hnegative (h.verified hverified).2.1
        simp [Settles, hcontested, hnegative, hunverified, Ne.symm hcontested]
  | inconclusive | contradicting =>
    show (if e.verdict.previouslyVerified then _ else if e.verdict = .contested then _ else _) =
      e.verdict ↔ _
    have hsupported := h.known.1
    have hvalidated := h.known.2
    cases hverdict : e.verdict <;> simp_all [Settles, Verdict.previouslyVerified]

/-- **The answer for a record in the cursor.** -/
theorem ingest_replayed {p : Prepared} {dir : LedgerDir} (h : p.recordHash ∈ dir.processed)
    (fault : Option PyError) :
    ∃ result, ingest p dir false fault = .ok (result, dir) ∧ result.ingested = false ∧
    result.claimId = p.artifact.claimId ∧
      result.verdict = (byId dir.claims p.artifact.claimId).map fun e =>
      verdictFor (some e) p.artifact.polarity := by
  have hold : p.recordHash ∈ dir.processed ∧ false = false := ⟨h, rfl⟩
  unfold ingest
  rw [if_pos hold]
  refine ⟨_, rfl, rfl, rfl, ?_⟩
  simp only [claimEntry_verdict]

section

variable {P : Platform} {lib : Texts} {producer : Producer} {record : PyVal} {gitHead : Str}
  {p : Prepared} {dir : LedgerDir}

theorem produce_replayed (hprepare : producer.prepare P lib record gitHead = .ok p)
    (hold : p.recordHash ∈ dir.processed)
    (fault : Option PyError) : ∃ result, produce P lib producer record dir gitHead false fault =
    .ok (result, dir) ∧ result.ingested = false ∧ result.claimId = p.artifact.claimId ∧
      result.verdict = (byId dir.claims p.artifact.claimId).map fun e =>
          verdictFor (some e) p.artifact.polarity := by
  obtain ⟨result, hingest, hresult⟩ := ingest_replayed hold fault
  exact ⟨result, bind_eq_ok.mpr ⟨p, hprepare, hingest⟩, hresult⟩

/-- What `produce` returns for the record is the truth: nothing is ingested or written, and the
verdict is the one that the registry has for the claim. -/
def ReplayTruthful (P : Platform) (lib : Texts) (dir : LedgerDir) (producer : Producer)
    (record : PyVal) (gitHead : Str) (claimId : Str) : Prop :=
  ∀ fault, ∃ result, produce P lib producer record dir gitHead false fault = .ok (result, dir) ∧
    result.ingested = false ∧ result.claimId = claimId ∧
    result.verdict = (byId dir.claims claimId).map ClaimEntry.verdict

/-- **In every state that calls of the producers lead to**, a record that is in the cursor is
answered for with the truth exactly where its claim has no entry, or one whose verdict the record
would not change. -/
theorem replay_truthful_iff {calls : List Call} {s : State}
    (hrun : run (step P lib) .start calls = some s)
    (hprepare : producer.prepare P lib record gitHead = .ok p)
    (hold : p.recordHash ∈ s.dir.processed) :
    ReplayTruthful P lib s.dir producer record gitHead p.artifact.claimId ↔
      ∀ e, byId s.dir.claims p.artifact.claimId = some e → Settles e p.artifact.polarity := by
  have hhistory : ∀ e, byId s.dir.claims p.artifact.claimId = some e → ∃ as, History as e :=
    fun e he =>
    ⟨_, (built_history ((run_traced hrun).built _)).2 e he⟩
  constructor
  · intro htruth e he
    obtain ⟨result, hproduce, -, -, hverdict⟩ := produce_replayed hprepare hold none
    obtain ⟨result', hproduce', -, -, hverdict'⟩ := htruth none
    rw [hproduce] at hproduce'
    obtain ⟨rfl, -⟩ := Prod.mk.inj (Except.ok.inj hproduce')
    rw [hverdict, he] at hverdict'
    obtain ⟨as, has⟩ := hhistory e he
    exact (settles_iff has _).mp (Option.some.inj hverdict')
  · intro hsettles fault
    obtain ⟨result, hproduce, hingested, hclaim, hverdict⟩ := produce_replayed hprepare hold fault
    refine ⟨result, hproduce, hingested, hclaim, ?_⟩
    rw [hverdict]
    cases hentry : byId s.dir.claims p.artifact.claimId with
    | none => rfl
    | some e =>
      obtain ⟨as, has⟩ := hhistory e hentry
      exact congrArg some ((settles_iff has _).mpr (hsettles e hentry))

end

/-! ## An answer that was supported once -/

theorem replay_truthful_answer : ∃ (s : State) (p : Prepared), run (step backwards .plain) .start
    [answerCall "t1" "SUPPORTING" "09:00"] = some s ∧
    (ReplayTruthful backwards .plain s.dir .conversation (answerRecord "t1" "SUPPORTING" "09:00")
      (lit "c0") p.artifact.claimId ↔
      ∀ e, byId s.dir.claims p.artifact.claimId = some e → Settles e p.artifact.polarity) := by
  have hshape :
    ((run (step backwards .plain) .start [answerCall "t1" "SUPPORTING" "09:00"]).bind fun s =>
      (Producer.prepare backwards .plain .conversation (answerRecord "t1" "SUPPORTING" "09:00")
        (lit "c0")).toOption.map fun p =>
        decide (p.recordHash ∈ s.dir.processed)) = some true := by decide +kernel
  obtain ⟨s, hs, hshape⟩ := Option.bind_eq_some_iff.mp hshape
  obtain ⟨p, hp, hold⟩ := Option.map_eq_some_iff.mp hshape
  exact ⟨s, p, hs, replay_truthful_iff hs (toOption_eq_some.mp hp) (of_decide_eq_true hold)⟩

/-- The answer was supported at 09:00 and not any more at 10:00: its entry says `REGRESSED`. For the
record of 09:00, `produce` returns `VERIFIED`. -/
theorem replay_untruthful : ¬∀ (P : Platform) (lib : Texts) (calls : List Call) (s : State),
    run (step P lib) .start calls = some s →
    ∀ (producer : Producer) (record : PyVal) (gitHead : Str) (p : Prepared),
    producer.prepare P lib record gitHead = .ok p →
      p.recordHash ∈ s.dir.processed →
      ReplayTruthful P lib s.dir producer record gitHead p.artifact.claimId := by
  intro h
  have hshape : ((run (step backwards .plain) .start
      [answerCall "t1" "SUPPORTING" "09:00", answerCall "t2" "UNSUPPORTED" "10:00"]).bind fun s =>
      (Producer.prepare backwards .plain .conversation (answerRecord "t1" "SUPPORTING" "09:00")
        (lit "c0")).toOption.map fun p =>
        (decide (p.recordHash ∈ s.dir.processed),
          (byId s.dir.claims p.artifact.claimId).map fun e =>
          (e.verdict, verdictFor (some e) p.artifact.polarity))) =
            some (true, some (.regressed, .verified)) := by decide +kernel
  obtain ⟨s, hs, hshape⟩ := Option.bind_eq_some_iff.mp hshape
  obtain ⟨p, hp, hshape⟩ := Option.map_eq_some_iff.mp hshape
  obtain ⟨hold, hentry⟩ := Prod.mk.inj hshape
  obtain ⟨e, he, hverdicts⟩ := Option.map_eq_some_iff.mp hentry
  obtain ⟨hregressed, hverified⟩ := Prod.mk.inj hverdicts
  have hprepare := toOption_eq_some.mp hp
  have hmem := of_decide_eq_true hold
  obtain ⟨result, hproduce, -, -, hverdict⟩ := produce_replayed hprepare hmem none
  obtain ⟨result', hproduce', -, -, hverdict'⟩ := h _ _ _ _ hs _ _ _ p hprepare hmem none
  rw [hproduce] at hproduce'
  obtain ⟨rfl, -⟩ := Prod.mk.inj (Except.ok.inj hproduce')
  rw [hverdict, he] at hverdict'
  have hsame : verdictFor (some e) p.artifact.polarity = e.verdict := Option.some.inj hverdict'
  rw [hverified, hregressed] at hsame
  cases hsame

end Conversation
