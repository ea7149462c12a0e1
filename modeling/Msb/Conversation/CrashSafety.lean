import Msb.Conversation.ClaimHistory

/-!
# A crash in a producer

`produce` rewrites its files in place, one after the other: the artifact, `claims.json`, the cursor.
A crash leaves a file as it was, or torn, or whole. The loaders read a torn file as an empty one.

The record was appended to the stream before, and after the crash the stream is replayed from its
start. A record whose hash is in the cursor is skipped then, whatever has become of its claim.

* `produceOn_ofDir` — without a crash this is `produce`
* `crash_recovered` — which crashes the replay recovers from
-/

namespace Conversation

open Py Ledger

/-! ## Files in place -/

/-- A file that holds JSON. The text of an object that was cut off is no JSON, whatever its length;
one that lacks only the line break at its end is whole. -/
inductive FileState (α : Type) where
  | absent
  | torn
  | whole (a : α)

/-- The ledger directory, with what a crash can leave. A torn artifact is `none`. -/
structure Disk where
  evidence : List (Str × Option Artifact)
  claims : FileState (List ClaimEntry)
  cursor : FileState (List Str)

/-- `load_registry` -/
def loadRegistry : FileState (List ClaimEntry) → List ClaimEntry
  | .whole claims => claims
  | .absent | .torn => []

/-- `load_cursor` -/
def loadCursor : FileState (List Str) → List Str
  | .whole processed => processed
  | .absent | .torn => []

/-- An artifact is written where there is no file yet. -/
def writeArtifact (a : Artifact) (content : Option Artifact)
    (evidence : List (Str × Option Artifact)) : List (Str × Option Artifact) :=
  if evidence.any fun f => f.1 = a.path then evidence else evidence ++ [(a.path, content)]

/-- Where in `produce` the crash comes: between two writes, or in one of them. -/
inductive CrashPoint where
  | beforeArtifact
  | inArtifact
  | beforeClaims
  | inClaims
  | beforeCursor
  | inCursor
  | afterCursor
  deriving DecidableEq

/-- The registry that `produce` writes. -/
def newClaims (p : Prepared) (claims : List ClaimEntry) : List ClaimEntry :=
  putEntry (claimEntry p (byId claims p.artifact.claimId)) claims

/-- The cursor that `produce` writes. -/
def newCursor (p : Prepared) (processed : List Str) : List Str :=
  sortedSet (processed ++ [p.recordHash])

/-- What is on the disk at a point of `produce`, for a record that the cursor does not have. -/
def Disk.at (disk : Disk) (p : Prepared) : CrashPoint → Disk
  | .beforeArtifact => disk
  | .inArtifact => { disk with evidence := writeArtifact p.artifact none disk.evidence }
  | .beforeClaims =>
    { disk with evidence := writeArtifact p.artifact (some p.artifact) disk.evidence }
  | .inClaims => { disk with
      evidence := writeArtifact p.artifact (some p.artifact) disk.evidence
      claims := .torn }
  | .beforeCursor => { disk with
      evidence := writeArtifact p.artifact (some p.artifact) disk.evidence
      claims := .whole (newClaims p (loadRegistry disk.claims)) }
  | .inCursor => {
      evidence := writeArtifact p.artifact (some p.artifact) disk.evidence
      claims := .whole (newClaims p (loadRegistry disk.claims))
      cursor := .torn }
  | .afterCursor => {
      evidence := writeArtifact p.artifact (some p.artifact) disk.evidence
      claims := .whole (newClaims p (loadRegistry disk.claims))
      cursor := .whole (newCursor p (loadCursor disk.cursor)) }

/-- `produce` on the disk, without a crash. -/
def produceOn (p : Prepared) (disk : Disk) : Disk :=
  if p.recordHash ∈ loadCursor disk.cursor then disk else disk.at p .afterCursor

section

variable (P : Platform) (lib : Texts) (gitHead : Str)

/-- The loop of `ingest_stream`. A record that is rejected ends it. -/
def ingestStream (disk : Disk) : List PyVal → Disk
  | [] => disk
  | record :: records =>
    match Exchange.prepare P lib record gitHead with
    | .error _ => disk
    | .ok p => ingestStream (produceOn p disk) records

/-- What the loaders read is the same. -/
def Disk.Agree (disk disk' : Disk) : Prop :=
  loadRegistry disk.claims = loadRegistry disk'.claims ∧
    loadCursor disk.cursor = loadCursor disk'.cursor

/-- **The replay after the crash leaves what a run without it leaves.** The stream is `before`, the
record, and `after`; the crash comes in the `produce` of the record. -/
def Recovers (disk : Disk) (before : List PyVal) (record : PyVal) (p : Prepared)
    (after : List PyVal) (point : CrashPoint) : Prop :=
  (ingestStream P lib gitHead (disk.at p point) (before ++ record :: after)).Agree
    (ingestStream P lib gitHead (produceOn p disk) after)

/-- The records that the stream has before are ingested. -/
def AllIngested (disk : Disk) (before : List PyVal) : Prop :=
  ∀ record ∈ before, ∃ p, Exchange.prepare P lib record gitHead = .ok p ∧
    p.recordHash ∈ loadCursor disk.cursor

end

/-- The entry that is written when the record is ingested twice is the same: the record is not a
supporting one (or it has no time, and no entry before it had one). -/
def IngestsTwice (claims : List ClaimEntry) (p : Prepared) : Prop :=
  p.artifact.polarity = .supporting → p.artifact.timestamp = [] ∧
    isSet ((byId claims p.artifact.claimId).bind ClaimEntry.firstSupportingEvidenceAt) = false

/-- **The crashes that do no harm**: the registry is not touched yet, or the cursor is written;
where the registry is torn there was none, and where it is written and the cursor is not, the record
may be ingested twice. -/
def Harmless (disk : Disk) (p : Prepared) : CrashPoint → Prop
  | .beforeArtifact | .inArtifact | .beforeClaims | .afterCursor => True
  | .inClaims => loadRegistry disk.claims = []
  | .beforeCursor =>
    UniqueClaims (loadRegistry disk.claims) ∧ IngestsTwice (loadRegistry disk.claims) p
  | .inCursor => False

/-! ## Without a crash -/

/-- A directory whose files are whole. -/
def Disk.ofDir (dir : LedgerDir) : Disk :=
  ⟨dir.evidence.map fun f => (f.1, some f.2), .whole dir.claims, .whole dir.processed⟩

section

variable {P : Platform} {lib : Texts} {gitHead : Str} {disk disk' : Disk} {p : Prepared}
  {dir : LedgerDir}
  {claims : List ClaimEntry} {prior : Option ClaimEntry} {record : PyVal}
  {before after : List PyVal} {point : CrashPoint}

/-- **Without a crash this is `produce`.** -/
theorem produceOn_ofDir : ∃ result dir', ingest p dir false none = .ok (result, dir') ∧
    produceOn p (.ofDir dir) = .ofDir dir' := by
  by_cases hold : p.recordHash ∈ dir.processed
  · have hin : p.recordHash ∈ dir.processed ∧ false = false := ⟨hold, rfl⟩
    unfold ingest produceOn
    rw [if_pos hin]
    exact ⟨_, _, rfl, if_pos hold⟩
  · obtain ⟨result, hingest, -, -⟩ := ingest_of_ingestible ⟨hold, rfl, .inl rfl⟩
    refine ⟨result, _, hingest, ?_⟩
    have hthere : ((dir.evidence.map fun f => (f.1, some f.2)).any fun f => f.1 = p.artifact.path) =
        dir.evidence.any fun f => f.1 = p.artifact.path := by
      rw [List.any_map]
      rfl
    have hartifact : writeArtifact p.artifact (some p.artifact)
      (dir.evidence.map fun f => (f.1, some f.2)) =
        (putArtifact p.artifact dir.evidence).map fun f => (f.1, some f.2) := by
      unfold writeArtifact putArtifact
      rw [hthere]
      split
      · rfl
      · rw [List.map_append]
        rfl
    have hnew : p.recordHash ∉ loadCursor (Disk.ofDir dir).cursor := hold
    unfold produceOn
    rw [if_neg hnew]
    show (⟨writeArtifact p.artifact _ (dir.evidence.map _), _, _⟩ : Disk) = _
    rw [hartifact]
    rfl

/-! ## Ingesting twice -/

/-- The verdict of a claim does not change when its last record comes again. -/
theorem verdictFor_claimEntry :
    verdictFor (some (claimEntry p prior)) p.artifact.polarity =
    verdictFor prior p.artifact.polarity := by
  have hverdict : (claimEntry p prior).verdict = verdictFor prior p.artifact.polarity :=
    claimEntry_verdict
  cases hp : p.artifact.polarity with
  | supporting =>
    have hnegative : (claimEntry p prior).negativeEvidence = prior.elim
        [] ClaimEntry.negativeEvidence := by
      unfold claimEntry
      rw [hp]
    rw [hp] at hverdict
    show (if (claimEntry p prior).verdict = .contested
      then _ else if (claimEntry p prior).negativeEvidence ≠ [] then _ else _) = _
    rw [hverdict, hnegative]
    cases prior with
    | none => rfl
    | some e =>
      simp only [verdictFor, Option.elim_some]
      by_cases hcontested : e.verdict = .contested
      · simp [hcontested]
      · by_cases hattacked : e.negativeEvidence = []
        · simp [hcontested, hattacked]
        · simp [hcontested, hattacked]
  | inconclusive | contradicting =>
    rw [hp] at hverdict
    show (if (claimEntry p prior).verdict.previouslyVerified
      then _ else if (claimEntry p prior).verdict = .contested then _ else _) = _
    rw [hverdict]
    cases prior with
    | none => rfl
    | some e =>
      cases hv : e.verdict <;> simp [verdictFor, Verdict.previouslyVerified, hv]

theorem sortedSet_twice {xs : List Str} {x : Str} :
    sortedSet (sortedSet (xs ++ [x]) ++ [x]) = sortedSet (xs ++ [x]) :=
  sortedSet_append_mem (List.mem_append_right _ List.mem_cons_self)

/-- A first time is written once. -/
theorem firstTime_twice (f : Option Str) (t : Str) :
    (if isSet (if isSet f then f else some t) then (if isSet f then f else some t) else some t) =
      if isSet f then f else some t := by
  cases hf : isSet f with
  | true => simp [hf]
  | false => simp

/-- **A record that is ingested twice.** -/
theorem claimEntry_claimEntry (h : p.artifact.polarity = .supporting → p.artifact.timestamp = [] ∧
    isSet (prior.bind ClaimEntry.firstSupportingEvidenceAt) = false) :
    claimEntry p (some (claimEntry p prior)) = claimEntry p prior := by
  have hverdict : verdictFor (some (claimEntry p prior)) p.artifact.polarity =
      verdictFor prior p.artifact.polarity :=
    verdictFor_claimEntry
  cases hp : p.artifact.polarity with
  | supporting =>
    obtain ⟨htime, hfirst⟩ := h hp
    have hempty : isSet (some []) = false := rfl
    rw [hp] at hverdict
    unfold claimEntry at hverdict ⊢
    simp only [hp, hfirst, htime, hempty, Bool.false_eq_true, if_false, Option.elim_some,
      Option.bind_some] at hverdict ⊢
    rw [hverdict, sortedSet_twice]
  | inconclusive =>
    rw [hp] at hverdict
    unfold claimEntry at hverdict ⊢
    simp only [hp, Option.elim_some, Option.bind_some] at hverdict ⊢
    rw [hverdict, sortedSet_twice]
  | contradicting =>
    rw [hp] at hverdict
    unfold claimEntry at hverdict ⊢
    simp only [hp, Option.elim_some, Option.bind_some] at hverdict ⊢
    rw [hverdict, sortedSet_twice, firstTime_twice]

/-! ## The replay -/

theorem newClaims_newClaims (hunique : UniqueClaims claims) (h : IngestsTwice claims p) :
    newClaims p (newClaims p claims) = newClaims p claims := by
  have hprior : byId (newClaims p claims) p.artifact.claimId =
      some (claimEntry p (byId claims p.artifact.claimId)) := by
    unfold newClaims
    rw [byId_putEntry hunique, claimEntry_claimId, if_pos rfl]
  show putEntry (claimEntry p (byId (newClaims p claims) _)) (newClaims p claims) =
    newClaims p claims
  rw [hprior, claimEntry_claimEntry h]
  exact putEntry_putEntry hunique

theorem ingestStream_cons (h : Exchange.prepare P lib record gitHead = .ok p) :
    ingestStream P lib gitHead disk (record :: after) = ingestStream P lib gitHead
    (produceOn p disk) after := by
  show (match Exchange.prepare P lib record gitHead with
    | .error _ => disk
    | .ok p => ingestStream P lib gitHead (produceOn p disk) after) = _
  rw [h]

/-- What is ingested is skipped. -/
theorem ingestStream_skip (h : AllIngested P lib gitHead disk before) :
    ingestStream P lib gitHead disk (before ++ after) = ingestStream P lib gitHead disk after := by
  induction before with
  | nil => rfl
  | cons record before ih =>
    obtain ⟨⟨q, hq, hold⟩, hrest⟩ := List.forall_mem_cons.mp h
    rw [List.cons_append, ingestStream_cons hq, produceOn, if_pos hold]
    exact ih hrest

theorem Disk.Agree.produceOn (h : disk.Agree disk') (q : Prepared) :
    (Conversation.produceOn q disk).Agree (Conversation.produceOn q disk') := by
  unfold Conversation.produceOn
  rw [h.2]
  split
  · exact h
  · exact ⟨congrArg (newClaims q) h.1, congrArg (newCursor q) h.2⟩

/-- What the loaders read is all that matters. -/
theorem Disk.Agree.ingestStream (h : disk.Agree disk') (records : List PyVal) :
    (Conversation.ingestStream P lib gitHead disk records).Agree
    (Conversation.ingestStream P lib gitHead disk' records) := by
  induction records generalizing disk disk' with
  | nil => exact h
  | cons record records ih =>
    cases hprepare : Exchange.prepare P lib record gitHead with
    | error e =>
      unfold Conversation.ingestStream
      rw [hprepare]
      exact h
    | ok q =>
      rw [ingestStream_cons hprepare, ingestStream_cons hprepare]
      exact ih (h.produceOn q)

/-- A crash that leaves the cursor as it was. -/
theorem recovers_of_cursor (hbefore : AllIngested P lib gitHead disk before)
    (hrecord : Exchange.prepare P lib record gitHead = .ok p)
    (hnew : p.recordHash ∉ loadCursor disk.cursor)
    (hcursor : loadCursor (disk.at p point).cursor = loadCursor disk.cursor)
    (hclaims : newClaims p (loadRegistry (disk.at p point).claims) = newClaims p
      (loadRegistry disk.claims)) :
    Recovers P lib gitHead disk before record p after point := by
  have hskip : AllIngested P lib gitHead (disk.at p point) before := fun r hr => by
    rw [hcursor]
    exact hbefore r hr
  unfold Recovers
  rw [ingestStream_skip hskip, ingestStream_cons hrecord]
  refine Disk.Agree.ingestStream ?_ after
  unfold produceOn
  rw [hcursor, if_neg hnew, if_neg hnew]
  exact ⟨hclaims, congrArg (newCursor p) hcursor⟩

/-- **A harmless crash**: the replay leaves what a run without the crash leaves. -/
theorem crash_recovered (hbefore : AllIngested P lib gitHead disk before)
    (hrecord : Exchange.prepare P lib record gitHead = .ok p)
    (hnew : p.recordHash ∉ loadCursor disk.cursor)
    (h : Harmless disk p point) : Recovers P lib gitHead disk before record p after point := by
  cases point with
  | beforeArtifact | inArtifact | beforeClaims =>
    exact recovers_of_cursor hbefore hrecord hnew rfl rfl
  | inClaims =>
    refine recovers_of_cursor hbefore hrecord hnew rfl ?_
    -- what is torn reads as the empty registry, which it was
    rw [show loadRegistry disk.claims = [] from h]
    rfl
  | beforeCursor => exact recovers_of_cursor hbefore hrecord hnew rfl (newClaims_newClaims h.1 h.2)
  | inCursor => exact h.elim
  | afterCursor =>
    have hin : p.recordHash ∈ loadCursor (disk.at p .afterCursor).cursor :=
      mem_sortedSet.mpr (List.mem_append_right _ List.mem_cons_self)
    have hskip : AllIngested P lib gitHead (disk.at p .afterCursor) before := fun r hr => by
      obtain ⟨q, hq, hold⟩ := hbefore r hr
      exact ⟨q, hq, mem_sortedSet.mpr (List.mem_append_left _ hold)⟩
    unfold Recovers
    rw [ingestStream_skip hskip, ingestStream_cons hrecord, produceOn, if_pos hin, produceOn,
      if_neg hnew]
    exact ⟨rfl, rfl⟩

end

/-! ## A torn registry -/

def Disk.empty : Disk := ⟨[], .absent, .absent⟩

def firstRecord : PyVal := answerRecord "t1" "SUPPORTING" "09:00"

/-- A question that is blocked, so its claim is another one. -/
def blockedRecord : PyVal := answerRecord "t2" "BLOCKED" "10:00"

/-- One record is ingested, and the next one crashes once its artifact is torn. -/
theorem crash_recovered_first : ∃ p q,
    Exchange.prepare backwards .plain firstRecord (lit "c0") = .ok p ∧
      Exchange.prepare backwards .plain blockedRecord (lit "c0") = .ok q ∧
      loadRegistry (produceOn p .empty).claims ≠ [] ∧
      Recovers backwards .plain (lit "c0") (produceOn p .empty) [firstRecord] blockedRecord q []
        .inArtifact := by
  have hrun : (do
      let p ← Exchange.prepare backwards .plain firstRecord (lit "c0")
      let q ← Exchange.prepare backwards .plain blockedRecord (lit "c0")
      let disk := produceOn p .empty
      .ok (decide (p.recordHash ∈ loadCursor disk.cursor),
        decide (q.recordHash ∉ loadCursor disk.cursor),
        (loadRegistry disk.claims).length)).toOption = some (true, true, 1) := by decide +kernel
  obtain ⟨p, hp, hrest⟩ := bind_eq_ok.mp (toOption_eq_some.mp hrun)
  obtain ⟨q, hq, hvalues⟩ := bind_eq_ok.mp hrest
  simp only [Except.ok.injEq, Prod.mk.injEq, decide_eq_true_eq] at hvalues
  obtain ⟨hold, hnew, hlength⟩ := hvalues
  have hbefore : AllIngested backwards .plain (lit "c0") (produceOn p .empty) [firstRecord] := by
    intro record hrecord
    obtain rfl := List.mem_singleton.mp hrecord
    exact ⟨p, hp, hold⟩
  have hclaims : loadRegistry (produceOn p .empty).claims ≠ [] := by
    intro hnil
    rw [hnil] at hlength
    cases hlength
  exact ⟨p, q, hp, hq, hclaims, crash_recovered hbefore hq hnew trivial⟩

/-- The second of two records is ingested, and the crash comes in the rewriting of `claims.json`.
The replay skips the first record, and its claim is gone. -/
theorem not_crash_recovered : ¬ ∀ (P : Platform) (lib : Texts) (gitHead : Str) (disk : Disk)
    (before : List PyVal) (record : PyVal) (p : Prepared) (after : List PyVal) (point : CrashPoint),
    AllIngested P lib gitHead disk before → Exchange.prepare P lib record gitHead = .ok p →
      p.recordHash ∉ loadCursor disk.cursor →
      Recovers P lib gitHead disk before record p after point := by
  intro h
  have hrun : (do
      let p ← Exchange.prepare backwards .plain firstRecord (lit "c0")
      let q ← Exchange.prepare backwards .plain blockedRecord (lit "c0")
      let disk := produceOn p .empty
      let crashed :=
        ingestStream backwards .plain (lit "c0") (disk.at q .inClaims)
        ([firstRecord] ++ [blockedRecord])
      .ok (decide (p.recordHash ∈ loadCursor disk.cursor),
        decide (q.recordHash ∉ loadCursor disk.cursor),
        (loadRegistry crashed.claims).length,
        (loadRegistry (produceOn q disk).claims).length)).toOption =
      some (true, true, 1, 2) := by decide +kernel
  obtain ⟨p, hp, hrest⟩ := bind_eq_ok.mp (toOption_eq_some.mp hrun)
  obtain ⟨q, hq, hvalues⟩ := bind_eq_ok.mp hrest
  simp only [Except.ok.injEq, Prod.mk.injEq, decide_eq_true_eq] at hvalues
  obtain ⟨hold, hnew, hlost, hkept⟩ := hvalues
  have hbefore : AllIngested backwards .plain (lit "c0") (produceOn p .empty) [firstRecord] := by
    intro record hrecord
    obtain rfl := List.mem_singleton.mp hrecord
    exact ⟨p, hp, hold⟩
  have hagree := (h _ _ _ _ _ blockedRecord q [] .inClaims hbefore hq hnew).1
  have hlength := congrArg List.length hagree
  rw [hlost] at hlength
  show False
  have hsame : (1 : Nat) = 2 := hlength.trans hkept
  cases hsame

end Conversation
