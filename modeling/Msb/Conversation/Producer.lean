import Msb.Conversation.Envelope

/-!
# The evidence producers

`conversation/producer.py` and `conversation/task_producer.py`: a record of an exchange, or of the
execution of a contract, becomes one piece of evidence for one claim. Both producers share the
registry of the claims and the cursor that holds the hashes of the records ingested so far.

The two differ in the records they accept and in the claim a record is evidence for
(`Producer.prepare`). What they make of it is the same (`ingest`): the entry of the claim is built
anew from the one before.

* `Producer.prepare` — what is ingested of a record
-/

namespace Conversation

open Py Ledger

/-! ## Evidence -/

inductive Polarity where
  | supporting
  | inconclusive
  | contradicting
  deriving DecidableEq

/-- The evidence object. -/
structure Artifact where
  evidenceId : Str
  subjectId : Str
  claimId : Str
  evidenceType : Str
  polarity : Polarity
  gitHead : Str
  artifactHash : Str
  toolchain : Str
  timestamp : Str
  result : PyVal
  provenance : PyVal

/-- What a producer takes from a record. -/
structure Prepared where
  artifact : Artifact
  recordHash : Str
  /-- The entry of the claim takes these from the record, too. -/
  subject : Str
  text : Str
  claimType : Str

/-- `_sanitize` -/
def sanitize (name : Str) : Str :=
  name.map fun c => if c ∈ lit ":+/\\ " then 95 else c

/-- `artifact_filename` -/
def Artifact.filename (a : Artifact) : Str :=
  sanitize a.timestamp ++ lit "_" ++ a.evidenceId ++ lit ".json"

/-- The path of the artifact, under `evidence/`. -/
def Artifact.path (a : Artifact) : Str := a.evidenceType ++ lit "/" ++ a.filename

/-- `evidence_ref` -/
def Artifact.ref (a : Artifact) : Str := lit "ledger://evidence/" ++ a.path

/-- The fields that a record lacks. -/
def missingFields (record : PyVal) (required : List String) : List Str :=
  (required.filter fun f => !hasKey record f).map lit

/-- The checks that `_validate_record` begins with. -/
def checkRecord (lib : Texts) (noun : String) (required : List String) (record : PyVal) :
    Except PyError Unit := do
  raiseIf (isDict record = false) (.valueError (lit noun ++ lit " record must be a dict"))
  raiseIf (missingFields record required ≠ [])
    (.valueError (lit "malformed " ++ lit noun ++ lit " record: missing " ++ join ", "
      (missingFields record required)))
  let version ← get record "record_version"
  raiseIf (lib.str version ≠ lit "1.0")
    (.valueError (lit "unsupported record_version: " ++ lib.repr version))

section

variable (P : Platform) (lib : Texts)

/-- `record_identity` -/
def recordIdentity (record : PyVal) : Except PyError Str := do
  let text ← canonicalJson P record
  sha256Text P text

/-! ## Records of exchanges -/

namespace Exchange

def requiredFields : List String :=
  ["record_version", "trace_id", "mode", "query", "status", "input_guardrail", "output_guardrail",
    "sources", "answer", "latency_ms", "git_head", "recorded_at"]

/-- `_validate_record` -/
def validateRecord (record : PyVal) : Except PyError Unit := do
  checkRecord lib "conversation" requiredFields record
  let status ← get record "status"
  raiseIf (isText status (lit "answered") = false ∧ isText status (lit "blocked") = false)
    (.valueError (lit "record status must be 'answered' or 'blocked', got " ++ lib.repr status))
  let traceId ← get record "trace_id"
  let query ← get record "query"
  raiseIf (truthy traceId = false ∨ truthy query = false)
    (.valueError (lit "record requires non-empty trace_id and query"))

/-- `_source_ids` -/
def sourceIds (record : PyVal) : Except PyError (List Str) := do
  let sources ← getOr record "sources" (.list [])
  let sources ← Vesta.iterate sources
  let ids ← sources.mapM fun s => get s "source_id"
  .ok ((ids.filter truthy).map lib.str)

/-- The claim of an answer. -/
def answerClaim (record : PyVal) (query : Str) : Except PyError Str := do
  let sourceIds ← sourceIds lib record
  let answer ← get record "answer"
  let text ← getOr (orElse answer (.dict [])) "text" (.str [])
  claimIdForAns P query sourceIds (lib.str text)

/-- `_polarity_mapping` -/
def polarityMapping (record : PyVal) : Except PyError (Polarity × Str × Str) := do
  let query ← getOr record "query" (.str [])
  let status ← get record "status"
  if isText status (lit "blocked") then
    let claimId ← claimIdForQuery P (lib.str query)
    .ok (.contradicting, lit "conversation_block", claimId)
  else
    let output ← get record "output_guardrail"
    let verdict ← get (orElse output (.dict [])) "verdict"
    if isText verdict (lit "BLOCKED") then
      let claimId ← claimIdForQuery P (lib.str query)
      .ok (.contradicting, lit "conversation_block", claimId)
    else if isText verdict (lit "SUPPORTING") then
      let claimId ← answerClaim P lib record (lib.str query)
      .ok (.supporting, lit "conversation", claimId)
    else
      -- whatever else was answered never elevates
      let claimId ← answerClaim P lib record (lib.str query)
      .ok (.inconclusive, lit "conversation", claimId)

/-- `_self_consistency_check` -/
def selfConsistencyCheck (record : PyVal) : Except PyError Str := do
  let answer ← get record "answer"
  let mapping ← polarityMapping P lib record
  let supplied ← get (orElse answer (.dict [])) "claim_id"
  raiseIf (truthy supplied = true ∧ isText supplied mapping.2.2 = false)
    (.valueError (lit "self-consistency failure: envelope claim_id " ++ lib.repr supplied ++
      lit " != recomputed " ++ lib.repr (.str mapping.2.2)))
  .ok mapping.2.2

/-- A source in the provenance. -/
def sourceDict (s : PyVal) : Except PyError PyVal := do
  let sourceId ← get s "source_id"
  let score ← get s "score"
  let sourceTs ← get s "source_ts"
  let freshness ← get s "freshness"
  .ok (object [("source_id", sourceId), ("score", score), ("source_ts", sourceTs),
    ("freshness", freshness)])

/-- The five layers of the provenance. -/
def provenance (record : PyVal) (gitHead : Str) : Except PyError PyVal := do
  let output ← get record "output_guardrail"
  let output := orElse output (.dict [])
  let inputGuardrail ← get record "input_guardrail"
  let query ← getOr record "query" (.str [])
  let sources ← getOr record "sources" (.list [])
  let mode ← get record "mode"
  let inputVerdict ← get (orElse inputGuardrail (.dict [])) "verdict"
  let outputVerdict ← get output "verdict"
  let citationRate ← get output "citation_rate"
  let latencyMs ← get record "latency_ms"
  let tenantId ← get record "tenant_id"
  let sessionId ← get record "session_id"
  let model ← get record "model"
  let queryHash ← shortHash P (object [("query", .str (lib.str query))])
  let ids ← sourceIds lib record
  let dag ← get record "workflow_dag"
  let sources ← Vesta.iterate sources
  let sourceDicts ← sources.mapM sourceDict
  .ok (object
    [("execution",
      object [("mode", mode), ("input_guardrail", inputVerdict),
        ("output_guardrail", outputVerdict),
      ("citation_rate", citationRate), ("latency_ms", latencyMs)]),
    ("environment", object [("tenant_id", tenantId), ("session_id", sessionId), ("model", model),
      ("git_head", .str gitHead)]),
    ("input", object [("query", .str (lib.str query)), ("query_hash", .str queryHash),
      ("source_ids", .list ((ids.insertionSort (· ≤ ·)).map .str)), ("dag", dag)]),
    ("verifier",
      object [("tool", .str (lit "msb-v3/conversation-ledger")), ("version", .str (lit "1.0")),
      ("output_guardrail", outputVerdict)]),
    ("dependency", object [("sources", .list sourceDicts)])])

/-- `build_evidence_artifact`. The commit is the one of the record, where it has one. -/
def buildEvidenceArtifact (record : PyVal) (gitHead : Str) : Except PyError Artifact := do
  let recorded ← get record "git_head"
  let gitHead := lib.str (orElse recorded (.str gitHead))
  let recordHash ← recordIdentity P record
  let (polarity, evidenceType, claimId) ← polarityMapping P lib record
  let traceId ← getOr record "trace_id" (.str [])
  let recordedAt ← getOr record "recorded_at" (.str [])
  let status ← get record "status"
  let provenance ← provenance P lib record gitHead
  .ok {
    evidenceId := lit "ev_" ++ recordHash.take 12, subjectId :=
    lit "trace:" ++ lib.str traceId, claimId,
    evidenceType, polarity, gitHead, artifactHash := recordHash.take 16,
    toolchain := lit "msb-v3/conversation-ledger", timestamp := lib.str recordedAt,
    result := .str (if isText status (lit "answered") then lit "ANSWERED" else lit "BLOCKED"),
      provenance }

/-- `_claim_text` -/
def claimText (claimId query : Str) : Str :=
  if (lit "claim:ans:").isPrefixOf claimId then
    lit "answer to query \"" ++ query ++ lit "\" is supported by its sources"
  else lit "query \"" ++ query ++ lit "\" is safely answerable"

/-- What `produce` computes before it reads the ledger. -/
def prepare (record : PyVal) (gitHead : Str) : Except PyError Prepared := do
  validateRecord lib record
  let claimId ← selfConsistencyCheck P lib record
  let artifact ← buildEvidenceArtifact P lib record gitHead
  let recordHash ← recordIdentity P record
  let query ← getOr record "query" (.str [])
  .ok { artifact, recordHash, subject := artifact.subjectId,
        text := claimText claimId (lib.str query),
        claimType := if (lit "claim:ok:").isPrefixOf claimId then lit "query_answerable"
          else lit "answer_supported" }

end Exchange

/-! ## Records of executions -/

namespace Task

def requiredFields : List String :=
  ["record_version", "record_type", "task_id", "contract", "outcome", "exit_code", "git_head",
    "recorded_at"]

def validOutcomes : List Str := [lit "VERIFIED", lit "SUBMITTED", lit "FAILED", lit "ROLLED_BACK"]

def validFailureKinds : List Str :=
  [lit "predicates", lit "crash", lit "budget", lit "steps", lit "permission", lit "scope",
    lit "rollback_failed"]

/-- `v in texts` -/
def oneOf (v : PyVal) (texts : List Str) : Bool := texts.any (isText v)

/-- `v is None` -/
def isNone : PyVal → Bool
  | .none => true
  | _ => false

/-- `_validate_record` -/
def validateRecord (record : PyVal) : Except PyError Unit := do
  checkRecord lib "task" requiredFields record
  let recordType ← get record "record_type"
  raiseIf (isText recordType (lit "task") = false)
    (.valueError (lit "record_type must be 'task', got " ++ lib.repr recordType))
  let outcome ← get record "outcome"
  raiseIf (oneOf outcome validOutcomes = false)
    (.valueError (lit "invalid outcome " ++ lib.repr outcome))
  let kind ← get record "failure_kind"
  raiseIf (isNone kind = false ∧ oneOf kind validFailureKinds = false)
    (.valueError (lit "invalid failure_kind " ++ lib.repr kind))
  let taskId ← get record "task_id"
  let gitHead ← get record "git_head"
  raiseIf (truthy taskId = false ∨ truthy gitHead = false)
    (.valueError (lit "task record requires non-empty task_id and git_head"))
  let contract ← get record "contract"
  raiseIf (isDict contract = false) (.valueError (lit "task record requires a contract object"))

/-- `(expected or {}).get("predicates", []) if isinstance(expected, dict) else []` -/
def predicatesOf (expected : PyVal) : Except PyError PyVal :=
  if isDict expected then getOr expected "predicates" (.list []) else .ok (.list [])

/-- `_done_claim` -/
def doneClaim (contract : PyVal) : Except PyError Str := do
  let expected ← get contract "expected_output"
  let predicates ← predicatesOf expected
  let taskId ← getOr contract "task_id" (.str [])
  claimDoneTask P (lib.str taskId) expected predicates

/-- `_polarity_mapping` -/
def polarityMapping (record : PyVal) : Except PyError (Polarity × Str × Str) := do
  let outcome ← getOr record "outcome" (.str [])
  let contract ← get record "contract"
  let contract := orElse contract (.dict [])
  if lib.str outcome = lit "VERIFIED" then
    let claimId ← doneClaim P lib contract
    .ok (.supporting, lit "task_verified", claimId)
  else if lib.str outcome = lit "SUBMITTED" then
    let claimId ← doneClaim P lib contract
    .ok (.inconclusive, lit "task_submitted", claimId)
  else
    let kind ← get record "failure_kind"
    if lib.str outcome = lit "FAILED" ∧ isText kind (lit "predicates") = true then
      let claimId ← doneClaim P lib contract
      .ok (.contradicting, lit "task_failed_verify", claimId)
    else
      let taskId ← getOr record "task_id" (.str [])
      .ok (.contradicting, lit "task_failed", claimOkTask (lib.str taskId))

/-- `_self_consistency_check` -/
def selfConsistencyCheck (record : PyVal) : Except PyError Str := do
  let expected ← get record "claim_id"
  let mapping ← polarityMapping P lib record
  raiseIf (truthy expected = true ∧ isText expected mapping.2.2 = false)
    (.valueError (lit "self-consistency failure: record claim_id " ++ lib.repr expected ++
      lit " != recomputed " ++ lib.repr (.str mapping.2.2)))
  .ok mapping.2.2

/-- An outcome of a predicate in the provenance. -/
def outcomeDict (o : PyVal) : Except PyError PyVal := do
  let kind ← get o "kind"
  let passed ← get o "passed"
  .ok (object [("kind", kind), ("passed", passed)])

/-- The five layers of the provenance. -/
def provenance (record : PyVal) (gitHead : Str) : Except PyError PyVal := do
  let contract ← get record "contract"
  let contract := orElse contract (.dict [])
  let expected ← get contract "expected_output"
  let predicates ← predicatesOf expected
  let outcomes ← get record "predicate_outcomes"
  let outcomes ← Vesta.iterate (orElse outcomes (.list []))
  let exitCode ← get record "exit_code"
  let outcome ← get record "outcome"
  let kind ← get record "failure_kind"
  let passed ← outcomes.mapM fun o => get o "passed"
  let rollback ← get record "rollback"
  let rollbackKind ← get (orElse rollback (.dict [])) "kind"
  let tenantId ← get record "tenant_id"
  let taskId ← get record "task_id"
  let args ← get contract "args"
  let outcomeDicts ← outcomes.mapM outcomeDict
  let inputs ← get contract "inputs"
  let preconditions ← get contract "preconditions"
  let sideEffects ← get contract "side_effects"
  .ok (object
    [("execution", object [("exit_code", exitCode), ("outcome", outcome), ("failure_kind", kind),
      ("predicates_passed", .int (passed.filter truthy).length),
      ("predicates_total", .int outcomes.length),
      ("rollback", rollbackKind)]),
    ("environment", object [("tenant_id", tenantId), ("git_head", .str gitHead)]),
    ("input", object [("task_id", taskId), ("expected_output", expected),
      ("predicates", predicates), ("args", args)]),
    ("verifier", object [("tool", .str (lit "msb-v3/task-contract")), ("version", .str (lit "1.0")),
      ("predicate_outcomes", .list outcomeDicts)]),
    ("dependency",
      object [("inputs", inputs), ("preconditions", preconditions),
        ("side_effects", sideEffects)])])

/-- `build_evidence_artifact` -/
def buildEvidenceArtifact (record : PyVal) (gitHead : Str) : Except PyError Artifact := do
  let recorded ← get record "git_head"
  let gitHead := lib.str (orElse recorded (.str gitHead))
  let recordHash ← recordIdentity P record
  let (polarity, evidenceType, claimId) ← polarityMapping P lib record
  let taskId ← getOr record "task_id" (.str [])
  let recordedAt ← getOr record "recorded_at" (.str [])
  let outcome ← get record "outcome"
  let provenance ← provenance record gitHead
  .ok {
    evidenceId := lit "ev_" ++ recordHash.take 12, subjectId :=
    lit "task:" ++ lib.str taskId, claimId,
    evidenceType, polarity, gitHead, artifactHash := recordHash.take 16, toolchain :=
      lit "msb-v3/task-contract",
    timestamp := lib.str recordedAt, result := outcome, provenance }

/-- The text of a claim about a task. -/
def claimText (claimId taskId : Str) : Str :=
  if (lit "claim:done:").isPrefixOf claimId then lit "task \"" ++ taskId ++
    lit "\" produces its declared output"
  else lit "task \"" ++ taskId ++ lit "\" completes without failure"

/-- What `produce` computes before it reads the ledger. -/
def prepare (record : PyVal) (gitHead : Str) : Except PyError Prepared := do
  validateRecord lib record
  let claimId ← selfConsistencyCheck P lib record
  let artifact ← buildEvidenceArtifact P lib record gitHead
  let recordHash ← recordIdentity P record
  let taskId ← getOr record "task_id" (.str [])
  .ok { artifact, recordHash, subject := artifact.subjectId,
        text := claimText claimId (lib.str taskId),
        claimType := if (lit "claim:done:").isPrefixOf claimId then lit "task_done"
          else lit "task_ok" }

end Task

/-- The two producers. -/
inductive Producer where
  | conversation
  | task
  deriving DecidableEq

def Producer.prepare : Producer → PyVal → Str → Except PyError Prepared
  | .conversation => Exchange.prepare P lib
  | .task => Task.prepare P lib

end

end Conversation
