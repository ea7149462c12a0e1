import Msb.Infra.Run
import Msb.Ledger.AnchorDaemon
import Msb.Ledger.Notary

/-!
# The migration barrier

`migration.py`: `MigrationBarrier.run` takes the chain from the first format to the second one, or
finds the second segment there and checks it. What happened is written to a manifest, which is
also where a later call looks up the head that the second segment starts from.

* `MigrationBarrier.run` — the call, with every exception that a step of it can raise
-/

namespace Ledger

open Py

/-! ## What a call meets -/

/-- The classes of exceptions that `run` tells apart: `MigrationBlocked`, `ExportError`, the ones
that reading a segment is guarded against, and the rest. -/
inductive ExcKind where
  | blocked
  | exportError
  | unreadable
  | other
  deriving DecidableEq

/-- An exception and its text. -/
structure Exc where
  kind : ExcKind
  text : Str
  deriving DecidableEq

def migrationBlocked (text : Str) : Exc := ⟨.blocked, text⟩

/-- A JSON object. -/
abbrev Items := List (PyKey × PyVal)

/-- The writes that outlive the call: keys of `chain_meta`, and the manifest. -/
inductive MigrationWrite where
  | begin
  | started
  | completeState
  | completedAt
  | active
  | abortState
  | abortedAt
  | blockState
  | blockReason
  | blockedAt
  | blocked
  deriving DecidableEq

/-- What is found at the path of the second segment: its size cannot be read; it is not there, or
empty; or it has contents, which `verify_jsonl` takes from a head on. -/
inductive V2Found where
  | unstatable (e : Exc)
  | absent
  | present (verify : Str → Except Exc Items)

/-- The manifest of an export. -/
structure Exported where
  headHash : PyVal
  outputSha256 : PyVal

/-- The fields of the first record that are read. -/
structure FirstRecord where
  seq : PyVal
  recordHash : PyVal

/-- What one call meets. The export directory, the lock, the segment and the verifiers are read or
run anew at each call, and each of them and every write may fail. -/
structure MigrationEnv where
  /-- The directory or the lock, before anything is guarded. -/
  entry : Option Exc
  migrationId : Str
  now : MigrationWrite → Str
  failure : MigrationWrite → Option Exc
  v2 : V2Found
  manifestRead : Option Exc
  metaRead : Option Exc
  internal : Except Exc ChainVerdict
  records : Except Exc (List AuditRecord)
  exportV1 : Except Exc Exported
  headVerifier : Except Exc PyVal
  openV2 : Option Exc
  appendV2 : Items → Except Exc FirstRecord
  verifyV2 : Except Exc Items
  /-- `str` of a value in a message. -/
  repr : PyVal → Str

/-- The constants of a barrier. -/
structure MigrationBarrier where
  operator : Str
  exportManifestPath : Str
  v2Path : Str

/-- What outlives a call: the manifest, if there is one, and the keys of `chain_meta`. -/
structure MigrationDisk where
  manifest : Option Items
  chainMeta : ChainMeta

/-- The disk, and how far the call has come. -/
structure MigrationProgress where
  disk : MigrationDisk
  began : Bool
  v2Started : Bool

/-- What `run` returns. -/
inductive MigrationResult where
  | alreadyActive (v2 manifest : Items)
  | activated (manifest v2 : Items)

/-- A part of a call: it may raise, and what it has written stays. -/
abbrev Attempt := EStateM Exc MigrationProgress

/-! ## The call -/

/-- A call of something outside. -/
def ask {α : Type} : Except Exc α → Attempt α
  | .ok a => pure a
  | .error e => throw e

/-- A read that may fail. -/
def unlessFails : Option Exc → Attempt Unit
  | none => pure ()
  | some e => throw e

def write (env : MigrationEnv) (w : MigrationWrite) (f : MigrationDisk → MigrationDisk) :
    Attempt Unit := do
  unlessFails (env.failure w)
  modify fun p => { p with disk := f p.disk }

def setMeta (env : MigrationEnv) (w : MigrationWrite) (f : ChainMeta → ChainMeta) : Attempt Unit :=
  write env w fun d => { d with chainMeta := f d.chainMeta }

/-- `bool(result.get("valid"))` -/
def validResult (result : Items) : Bool := truthy ((getItem result (lit "valid")).getD .none)

/-- `v == i` for a number `i`. -/
def eqInt (v : PyVal) (i : Int) : Bool :=
  match v with
  | .int j => j = i
  | .bool b => (if b then 1 else 0) = i
  | .float (.finite x) => x.value = i
  | _ => false

namespace MigrationBarrier

variable (self : MigrationBarrier) (env : MigrationEnv)

/-- `_manifest` -/
def manifest (w : MigrationWrite) (values : Items) : Items :=
  [(.str (lit "schema_version"), .str (lit "msb.audit.migration-manifest.v1")),
    (.str (lit "migration_id"), .str env.migrationId), (.str (lit "operator"), .str self.operator),
    (.str (lit "updated_at"), .str (env.now w))] ++ values

/-- `_write_manifest` -/
def writeManifest (w : MigrationWrite) (values : Items) : Attempt Items := do
  write env w fun d => { d with manifest := some (self.manifest env w values) }
  pure (self.manifest env w values)

/-- `_verified_head_hash` -/
def verifiedHeadHash (result : Items) : Option Str :=
  [lit "tip_hash", lit "anchored_tip", lit "head_hash"].findSome? fun key =>
    match getItem result key with
    | some (.str s) => some s
    | _ => none

/-- The branch of `run` for a segment that is there. -/
def existing (verify : Str → Except Exc Items) : Attempt MigrationResult := do
  unlessFails env.manifestRead
  let prior := ((← get).disk.manifest).getD []
  match getItem prior (lit "v1_head_hash") with
  | some (.str initialPrevHash) =>
    let result ← ask (match verify initialPrevHash with
      | .error ⟨.unreadable, text⟩ =>
        .error (migrationBlocked (lit "existing v2 segment is unreadable: " ++ text))
      | other => other)
    if !validResult result then
      throw (migrationBlocked (lit "existing v2 segment is not independently verifiable"))
    unlessFails env.metaRead
    if (← get).disk.chainMeta.migrationState ≠ some .v2Active then
      throw (migrationBlocked
        (lit "existing v2 segment requires operator review; chain is not V2_ACTIVE"))
    pure (.alreadyActive result prior)
  | _ => throw (migrationBlocked (lit "existing v2 segment has no recorded v1 head"))

/-- The last record of the chain, if the chain is valid and not empty. -/
def v1Head : Attempt AuditRecord := do
  let internal ← ask env.internal
  if !internal.isValid then
    throw (migrationBlocked (lit "v1 chain is not valid: " ++ internal.reason.getD (lit "None")))
  let records ← ask env.records
  match records.getLast? with
  | none => throw (migrationBlocked (lit "v1 chain is empty; refusing to invent a migration head"))
  | some last => pure last

/-- The values that both manifests name. -/
def headValues (last : AuditRecord) (state : Str) : Items :=
  [(.str (lit "state"), .str state), (.str (lit "v1_head_seq"), .int last.seq),
    (.str (lit "v1_head_hash"), .str last.recordHash)]

/-- `begin_migration` and the first manifest. -/
def begin (last : AuditRecord) : Attempt Unit := do
  if strip env.migrationId = [] then throw ⟨.other, lit "migration_id is required"⟩
  setMeta env .begin fun m =>
    { m with
      migrationState := some .migrating
      migrationId := some env.migrationId
      migrationStartedAt := some (env.now .begin) }
  modify fun p => { p with began := true }
  let _ ← self.writeManifest env .started (headValues last (lit "MIGRATING"))

/-- The export and the check of the head by someone else. -/
def gate (last : AuditRecord) : Attempt (Exported × Items) := do
  let exported ← ask (match env.exportV1 with
    | .error ⟨.exportError, text⟩ => .error (migrationBlocked (lit "v1 export failed: " ++ text))
    | other => other)
  if !isText exported.headHash last.recordHash then
    throw (migrationBlocked (lit "exported v1 head does not match live v1 head"))
  let headResult ← ask env.headVerifier
  match headResult with
  | .dict result =>
    match getItem result (lit "valid") with
    | some (.bool true) =>
      if (verifiedHeadHash result).any (· ≠ last.recordHash) then
        throw (migrationBlocked (lit "external verifier returned a different v1 head"))
      match (getItem result (lit "anchored_seq")).getD .none with
      | .none => pure (exported, result)
      | verifiedSeq =>
        if !eqInt verifiedSeq last.seq then
          throw (migrationBlocked (lit "external verifier returned a different v1 sequence"))
        pure (exported, result)
    | _ => throw (migrationBlocked
        (lit "external v1 head verification failed: " ++ env.repr headResult))
  | _ => throw (migrationBlocked
      (lit "external v1 head verification failed: " ++ env.repr headResult))

/-- The arguments of the first append to the second segment. -/
def v2Arguments (last : AuditRecord) (exported : Exported) : Items :=
  [(.str (lit "component"), .str (lit "migration")),
    (.str (lit "event_type"), .str (lit "migration.v2_started")),
    (.str (lit "payload"), .dict [(.str (lit "migration_id"), .str env.migrationId),
      (.str (lit "v1_head_seq"), .int last.seq), (.str (lit "v1_head_hash"), .str last.recordHash),
      (.str (lit "v1_export_sha256"), exported.outputSha256)]),
    (.str (lit "actor"), .str self.operator), (.str (lit "action"), .str (lit "migration.start")),
    (.str (lit "authority"), .dict [(.str (lit "decision_id"), .str env.migrationId),
      (.str (lit "policy_version"), .str (lit "audit-migration-v1")),
      (.str (lit "scope"), .list [.str (lit "audit-chain")])]),
    (.str (lit "execution"), .dict [(.str (lit "executor_id"), .str (lit "migration-barrier")),
      (.str (lit "result"), .str (lit "success"))]),
    (.str (lit "verification"), .dict [(.str (lit "verifier_id"), .str (lit "migration-barrier")),
      (.str (lit "result"), .str (lit "verified")),
      (.str (lit "method"), .str (lit "v1-export-and-external-head"))]),
    (.str (lit "environment_ref"), .str (lit "migration-test-runtime"))]

/-- The second segment: its first record, and the check of it. -/
def startV2 (last : AuditRecord) (exported : Exported) : Attempt (FirstRecord × Items) := do
  unlessFails env.openV2
  modify fun p => { p with v2Started := true }
  let first ← ask (env.appendV2 (self.v2Arguments env last exported))
  let v2Result ← ask env.verifyV2
  if !validResult v2Result then
    throw (migrationBlocked (lit "v2 verification failed: " ++ env.repr (.dict v2Result)))
  pure (first, v2Result)

/-- `complete_migration` and the last manifest. -/
def complete (last : AuditRecord) (headResult v2Result : Items) (first : FirstRecord) :
    Attempt MigrationResult := do
  setMeta env .completeState fun m => { m with migrationState := some .v2Active }
  setMeta env .completedAt fun m => { m with migrationCompletedAt := some (env.now .completedAt) }
  modify fun p => { p with began := false }
  let manifest ← self.writeManifest env .active (headValues last (lit "V2_ACTIVE") ++
    [(.str (lit "v1_export_manifest"), .str self.exportManifestPath),
      (.str (lit "v2_path"), .str self.v2Path), (.str (lit "v2_first_seq"), first.seq),
      (.str (lit "v2_head_hash"), first.recordHash), (.str (lit "v2_verification"), .dict v2Result),
      (.str (lit "external_head_verification"), .dict headResult)])
  pure (.activated manifest v2Result)

/-- The first migration. -/
def activate : Attempt MigrationResult := do
  let last ← v1Head env
  self.begin env last
  let (exported, headResult) ← gate env last
  let (first, v2Result) ← self.startV2 env last exported
  self.complete env last headResult v2Result first

/-- What is guarded. -/
def body : Attempt MigrationResult :=
  match env.v2 with
  | .unstatable e => throw e
  | .present verify => existing env verify
  | .absent => self.activate env

/-- The handler of `run`, before it raises. -/
def unwind (e : Exc) : Attempt Unit := do
  if (← get).began then
    if (← get).v2Started then
      setMeta env .blockState fun m => { m with migrationState := some .migrationBlocked }
      setMeta env .blockReason fun m => { m with migrationBlockedReason := some e.text }
      setMeta env .blockedAt fun m => { m with migrationBlockedAt := some (env.now .blockedAt) }
    else
      setMeta env .abortState fun m => { m with migrationState := some .v1Active }
      setMeta env .abortedAt fun m => { m with migrationAbortedAt := some (env.now .abortedAt) }
  let _ ← self.writeManifest env .blocked
    [(.str (lit "state"), .str (lit "MIGRATION_BLOCKED")), (.str (lit "reason"), .str e.text)]

/-- `MigrationBarrier.run` -/
def run (disk : MigrationDisk) : Except Exc MigrationResult × MigrationDisk :=
  match env.entry with
  | some e => (.error e, disk)
  | none =>
    match self.body env ⟨disk, false, false⟩ with
    | .ok result p => (.ok result, p.disk)
    | .error e p =>
      match self.unwind env e p with
      | .ok _ q => (.error (migrationBlocked e.text), q.disk)
      | .error e' q => (.error e', q.disk)

end MigrationBarrier

end Ledger
