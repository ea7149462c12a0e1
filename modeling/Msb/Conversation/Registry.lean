import Msb.Conversation.Producer
import Msb.Infra.Keyed

/-!
# The registry of the claims

The second half of `produce`, which the two producers share: the entry of the claim is built from
the one before and takes its place, and the hash of the record goes into the cursor. A record whose
hash is there already changes nothing.

The entry takes over the evidence lists and the two times of the negative evidence; the other times
are written anew, or not at all (`claimEntry`).

* `ingest_cases` — what a call does to the ledger
-/

namespace Conversation

open Py Ledger

/-! ## Entries -/

/-- The verdicts that an entry can carry. `SUPPORTED` and `VALIDATED` come from other writers of the
registry. -/
inductive Verdict where
  | verified
  | supported
  | validated
  | regressed
  | contested
  | unverified
  deriving DecidableEq

def Verdict.text : Verdict → Str
  | .verified => lit "VERIFIED"
  | .supported => lit "SUPPORTED"
  | .validated => lit "VALIDATED"
  | .regressed => lit "REGRESSED"
  | .contested => lit "CONTESTED"
  | .unverified => lit "UNVERIFIED"

/-- `_PREVIOUSLY_VERIFIED` -/
def Verdict.previouslyVerified : Verdict → Bool
  | .verified | .supported | .validated | .regressed => true
  | .contested | .unverified => false

/-- An entry of the registry. A time that is `None`, or that has no key, is `none`. -/
structure ClaimEntry where
  claimId : Str
  subject : Str
  text : Str
  claimType : Str
  verdict : Verdict
  supportingEvidence : List Str
  inconclusiveEvidence : List Str
  negativeEvidence : List Str
  firstNegativeEvidenceAt : Option Str
  lastNegativeEvidenceAt : Option Str
  firstSupportingEvidenceAt : Option Str
  lastSupportingEvidenceAt : Option Str
  lastInconclusiveEvidenceAt : Option Str
  deriving DecidableEq

/-- `_verdict_for` -/
def verdictFor (prior : Option ClaimEntry) (polarity : Polarity) : Verdict :=
  match prior, polarity with
  | none, .contradicting => .unverified
  | some e, .contradicting =>
    if e.verdict.previouslyVerified then .regressed
    else if e.verdict = .contested then .contested
    else .unverified
  | none, .supporting => .verified
  | some e, .supporting =>
    if e.verdict = .contested then .contested
    else if e.negativeEvidence ≠ [] then .contested
    else .verified
  | none, .inconclusive => .unverified
  | some e, .inconclusive =>
    if e.verdict.previouslyVerified then .regressed
    else if e.verdict = .contested then .contested
    else .unverified

/-- `sorted({...})` -/
def sortedSet (xs : List Str) : List Str := xs.dedup.insertionSort (· ≤ ·)

/-- `bool(v)`, for a time. -/
def isSet (time : Option Str) : Bool := time.any (· ≠ [])

/-- `_claim_entry` -/
def claimEntry (p : Prepared) (prior : Option ClaimEntry) : ClaimEntry :=
  let ts := p.artifact.timestamp
  let entry : ClaimEntry := {
    claimId := p.artifact.claimId, subject := p.subject, text := p.text, claimType := p.claimType
    verdict := verdictFor prior p.artifact.polarity
    supportingEvidence := prior.elim [] ClaimEntry.supportingEvidence
    inconclusiveEvidence := prior.elim [] ClaimEntry.inconclusiveEvidence
    negativeEvidence := prior.elim [] ClaimEntry.negativeEvidence
    firstNegativeEvidenceAt := prior.bind ClaimEntry.firstNegativeEvidenceAt
    lastNegativeEvidenceAt := prior.bind ClaimEntry.lastNegativeEvidenceAt
    -- the entry has no key for these unless the branch below writes it
    firstSupportingEvidenceAt := none
    lastSupportingEvidenceAt := none
    lastInconclusiveEvidenceAt := none }
  match p.artifact.polarity with
  | .supporting => { entry with
      supportingEvidence := sortedSet (entry.supportingEvidence ++ [p.artifact.evidenceId])
      firstSupportingEvidenceAt := if isSet (prior.bind ClaimEntry.firstSupportingEvidenceAt)
        then none else some ts
      lastSupportingEvidenceAt := some ts }
  | .inconclusive => { entry with
      inconclusiveEvidence := sortedSet (entry.inconclusiveEvidence ++ [p.artifact.evidenceId])
      lastInconclusiveEvidenceAt := some ts }
  | .contradicting => { entry with
      negativeEvidence := sortedSet (entry.negativeEvidence ++ [p.artifact.evidenceId])
      firstNegativeEvidenceAt :=
        if isSet (prior.bind ClaimEntry.firstNegativeEvidenceAt)
          then prior.bind ClaimEntry.firstNegativeEvidenceAt
        else some ts
      lastNegativeEvidenceAt := some ts }

/-- The keys of the entry, as they are written. -/
def ClaimEntry.dict (e : ClaimEntry) : PyVal :=
  let texts (xs : List Str) : PyVal := .list (xs.map .str)
  let time (t : Option Str) : PyVal := t.elim .none .str
  let key (name : String) (t : Option Str) : List (PyKey × PyVal) :=
    (t.map fun s => (.str (lit name), .str s)).toList
  .dict ([(.str (lit "claim_id"), .str e.claimId), (.str (lit "subject"), .str e.subject),
    (.str (lit "text"), .str e.text),
    (.str (lit "claim_type"), .str e.claimType), (.str (lit "verification_tier"), .str (lit "T3")),
    (.str (lit "verdict"), .str e.verdict.text),
      (.str (lit "supporting_evidence"), texts e.supportingEvidence),
    (.str (lit "inconclusive_evidence"), texts e.inconclusiveEvidence),
    (.str (lit "negative_evidence"), texts e.negativeEvidence),
    (.str (lit "first_negative_evidence_at"), time e.firstNegativeEvidenceAt),
    (.str (lit "last_negative_evidence_at"), time e.lastNegativeEvidenceAt)] ++
    key "first_supporting_evidence_at" e.firstSupportingEvidenceAt ++
    key "last_supporting_evidence_at" e.lastSupportingEvidenceAt ++
    key "last_inconclusive_evidence_at" e.lastInconclusiveEvidenceAt)

/-! ## The ledger -/

/-- The files of a ledger directory: the artifacts under `evidence/`, `claims.json`, and
`replay_cursor.json`. Every text in them is a part of a record that has a hash, so it has no
surrogate, and JSON gives it back. -/
structure LedgerDir where
  evidence : List (Str × Artifact)
  claims : List ClaimEntry
  processed : List Str

def LedgerDir.empty : LedgerDir := ⟨[], [], []⟩

/-- What `produce` returns. -/
structure Produced where
  evidenceRef : Str
  filename : Str
  artifact : Artifact
  claimId : Str
  verdict : Option Verdict
  ingested : Bool

/-- `by_id.get(claim_id)` -/
def byId (claims : List ClaimEntry) (claimId : Str) : Option ClaimEntry :=
  Keyed.find ClaimEntry.claimId claimId claims

/-- The registry with the new entry, sorted. -/
def putEntry (entry : ClaimEntry) (claims : List ClaimEntry) : List ClaimEntry :=
  (Keyed.put ClaimEntry.claimId entry claims).insertionSort fun a b => a.claimId ≤ b.claimId

/-- The artifact is written once. -/
def putArtifact (a : Artifact) (evidence : List (Str × Artifact)) : List (Str × Artifact) :=
  if evidence.any fun f => f.1 = a.path then evidence else evidence ++ [(a.path, a)]

/-- `produce`, from the reading of the ledger on. `fault` is what writing the artifact raises. -/
def ingest (p : Prepared) (dir : LedgerDir) (dryRun : Bool) (fault : Option PyError) :
    Except PyError (Produced × LedgerDir) :=
  let prior := byId dir.claims p.artifact.claimId
  let result : Produced := {
    evidenceRef := p.artifact.ref, filename := p.artifact.filename, artifact :=
    p.artifact, claimId := p.artifact.claimId
    verdict := none, ingested := false }
  if p.recordHash ∈ dir.processed ∧ dryRun = false then
    .ok ({ result with verdict := prior.map fun e => (claimEntry p (some e)).verdict }, dir)
  else
    let entry := claimEntry p prior
    let result := { result with verdict := some entry.verdict, ingested := true }
    if dryRun then .ok (result, dir)
    else
      match fault with
      | some e =>
        if dir.evidence.any fun f => f.1 = p.artifact.path then .ok (result, next entry)
          else .error e
      | none => .ok (result, next entry)
where
  next (entry : ClaimEntry) : LedgerDir := {
    evidence := putArtifact p.artifact dir.evidence
    claims := putEntry entry dir.claims
    processed := sortedSet (dir.processed ++ [p.recordHash]) }

/-- `produce` -/
def produce (P : Platform) (lib : Texts) (producer : Producer) (record : PyVal) (dir : LedgerDir)
    (gitHead : Str)
    (dryRun : Bool) (fault : Option PyError) : Except PyError (Produced × LedgerDir) := do
  let prepared ← producer.prepare P lib record gitHead
  ingest prepared dir dryRun fault

/-! ## What a record changes -/

section

variable {p : Prepared} {dir : LedgerDir} {prior : Option ClaimEntry} {x : Str} {xs : List Str}

@[simp] theorem mem_sortedSet : x ∈ sortedSet xs ↔ x ∈ xs := by
  unfold sortedSet
  rw [List.mem_insertionSort, List.mem_dedup]

theorem nodup_sortedSet : (sortedSet xs).Nodup :=
  (List.perm_insertionSort _ _).nodup_iff.mpr (List.nodup_dedup xs)

theorem sortedSet_congr {ys : List Str} (h : ∀ x, x ∈ xs ↔ x ∈ ys) :
    sortedSet xs = sortedSet ys := by
  have hperm : (sortedSet xs).Perm (sortedSet ys) :=
    (List.perm_ext_iff_of_nodup nodup_sortedSet nodup_sortedSet).mpr fun x => by
      rw [mem_sortedSet, mem_sortedSet, h]
  exact hperm.eq_of_sortedLE List.sortedLE_insertionSort List.sortedLE_insertionSort

/-- What is in the set already. -/
theorem sortedSet_append_mem (h : x ∈ xs) : sortedSet (sortedSet xs ++ [x]) = sortedSet xs :=
  sortedSet_congr fun y => by
    rw [List.mem_append, mem_sortedSet, List.mem_singleton, or_iff_left_iff_imp]
    rintro rfl
    exact h

@[simp] theorem claimEntry_claimId : (claimEntry p prior).claimId = p.artifact.claimId := by
  unfold claimEntry
  cases p.artifact.polarity <;> rfl

@[simp] theorem claimEntry_verdict :
    (claimEntry p prior).verdict = verdictFor prior p.artifact.polarity := by
  unfold claimEntry
  cases hpolarity : p.artifact.polarity <;> rfl

/-- No two entries are about one claim. -/
def UniqueClaims (claims : List ClaimEntry) : Prop := Keyed.Unique ClaimEntry.claimId claims

variable {claims : List ClaimEntry} {entry : ClaimEntry}

theorem UniqueClaims.put (h : UniqueClaims claims) :
    UniqueClaims (putEntry entry claims) :=
  (Keyed.Unique.put h).perm (List.perm_insertionSort _ _).symm

/-- **The entry of each claim** after an entry is put. -/
theorem byId_putEntry {c : Str} (h : UniqueClaims claims) :
    byId (putEntry entry claims) c = if c = entry.claimId then some entry else byId claims c := by
  unfold byId putEntry
  rw [← Keyed.find_perm (Keyed.Unique.put h) (List.perm_insertionSort _ _).symm, Keyed.find_put h]

/-- An entry that is there already. -/
theorem putEntry_putEntry (h : UniqueClaims claims) :
    putEntry entry (putEntry entry claims) = putEntry entry claims := by
  have : Std.Total fun a b : ClaimEntry => a.claimId ≤ b.claimId :=
    ⟨fun a b => le_total a.claimId b.claimId⟩
  have : IsTrans ClaimEntry fun a b => a.claimId ≤ b.claimId := ⟨fun _ _ _ => le_trans⟩
  have hmem : entry ∈ putEntry entry claims := (List.mem_insertionSort _).mpr Keyed.mem_put_self
  show List.insertionSort _ (Keyed.put _ _ (putEntry entry claims)) = _
  rw [Keyed.put_self h.put hmem]
  exact (List.pairwise_insertionSort _ _).insertionSort_eq

/-- The record is new, and its artifact is there or can be written. -/
structure Ingestible (p : Prepared) (dir : LedgerDir) (dryRun : Bool) (fault : Option PyError) :
    Prop where
  unprocessed : p.recordHash ∉ dir.processed
  writes : dryRun = false
  writable : fault = none ∨ (dir.evidence.any fun f => f.1 = p.artifact.path) = true

theorem ingest_of_ingestible {dryRun : Bool} {fault : Option PyError}
    (h : Ingestible p dir dryRun fault) : ∃ result, ingest p dir dryRun fault =
        .ok (result, ingest.next p dir (claimEntry p (byId dir.claims p.artifact.claimId))) ∧
      result.ingested = true ∧ result.artifact = p.artifact := by
  obtain ⟨hnew, rfl, hwritable⟩ := h
  have hold : ¬ (p.recordHash ∈ dir.processed ∧ false = false) := fun hmem => hnew hmem.1
  unfold ingest
  rw [if_neg hold, if_neg Bool.false_ne_true]
  cases fault with
  | none => exact ⟨_, rfl, rfl, rfl⟩
  | some e =>
    have hthere : (dir.evidence.any fun f => f.1 = p.artifact.path) = true :=
      hwritable.resolve_left (Option.some_ne_none e)
    simp only [hthere, if_true]
    exact ⟨_, rfl, rfl, rfl⟩

/-- **What a call does to the ledger**: it ingests the record, or it changes nothing. -/
theorem ingest_cases {dryRun : Bool} {fault : Option PyError} {result : Produced} {dir' : LedgerDir}
    (h : ingest p dir dryRun fault = .ok (result, dir')) :
    Ingestible p dir dryRun fault ∨ (dir' = dir ∧ ¬ (result.ingested = true ∧ dryRun = false)) := by
  unfold ingest at h
  by_cases hold : p.recordHash ∈ dir.processed ∧ dryRun = false
  · rw [if_pos hold] at h
    cases h
    exact .inr ⟨rfl, fun h => by cases h.1⟩
  · rw [if_neg hold] at h
    cases dryRun with
    | true =>
      cases h
      exact .inr ⟨rfl, fun h => by cases h.2⟩
    | false =>
      have hnew : p.recordHash ∉ dir.processed := fun hmem => hold ⟨hmem, rfl⟩
      refine .inl ⟨hnew, rfl, ?_⟩
      cases fault with
      | none => exact .inl rfl
      | some e =>
        rw [if_neg Bool.false_ne_true] at h
        by_cases hthere : (dir.evidence.any fun f => f.1 = p.artifact.path) = true
        · exact .inr hthere
        · simp only [hthere] at h
          cases h

end

end Conversation
