import Msb.Infra.Run
import Msb.Ledger.Notary

/-!
# The snapshots of the RAG index

`api/rag_index_state.py`: the tables of the control plane, and its transactions. A snapshot is begun
with the manifest of what is to be in it, its entries are reserved, uploaded and recorded batch by
batch, and it is committed as the active one of its tenant, or aborted.

The rows of a manifest stand with the snapshot they belong to. A transaction that raises changes
nothing. `claim_snapshot_batch` is two transactions: what it validates it reserves later, without
another look at the snapshot.

* `step` — one transaction
-/

namespace Rag

open Py Ledger

/-! ## The tables -/

/-- The state of an entry: `uploaded` is 0, 2 or 1. -/
inductive Upload where
  | free
  | claimed
  | done
  deriving DecidableEq

inductive Status where
  | building
  | active
  | retired
  | aborted
  deriving DecidableEq

def Status.text : Status → Str
  | .building => lit "building"
  | .active => lit "active"
  | .retired => lit "retired"
  | .aborted => lit "aborted"

/-- A source and the number of a chunk of it. -/
abbrev Key := Str × Nat

/-- An entry of a manifest. -/
structure ManifestEntry where
  source : Str
  chunk : Nat
  contentSha256 : Str
  sourceSha256 : Str
  deriving DecidableEq

def ManifestEntry.key (e : ManifestEntry) : Key := (e.source, e.chunk)

/-- A row of `rag_snapshot_manifest`. -/
structure ManifestRow extends ManifestEntry where
  uploaded : Upload
  deriving DecidableEq

/-- A row of `rag_index_snapshots`, with the manifest. -/
structure Snapshot where
  snapshotId : Str
  tenantId : Str
  collectionName : Str
  manifestSha256 : Str
  expectedPoints : Nat
  sourceCount : Nat
  baseSnapshotId : Option Str
  verifySources : Bool
  sourceRoot : Option Str
  status : Status
  createdAt : Str
  activatedAt : Option Str
  manifest : List ManifestRow

/-- A row of `rag_active_indexes`. -/
structure ActiveIndex where
  tenantId : Str
  snapshotId : Str
  collectionName : Str
  manifestSha256 : Str
  expectedPoints : Nat
  sourceCount : Nat
  activatedAt : Str

/-- A commit that has gone through. -/
structure Activation where
  tenantId : Str
  snapshotId : Str
  baseSnapshotId : Option Str

/-- The tables, and the batches that have been validated and not reserved yet. The last two fields
are what has happened so far, for the statements: the entries recorded as uploaded, and the
activations. -/
structure IndexState where
  snapshots : List Snapshot
  active : List ActiveIndex
  managed : List (Str × Str)
  validated : List (Str × List Key)
  recorded : List (Str × Key)
  activations : List Activation

def IndexState.empty : IndexState := ⟨[], [], [], [], [], []⟩

/-- `WHERE snapshot_id = ?` -/
def IndexState.find (s : IndexState) (snapshotId : Str) : Option Snapshot :=
  s.snapshots.find? fun x => x.snapshotId = snapshotId

/-- `WHERE snapshot_id = ? AND tenant_id = ?` -/
def IndexState.getSnapshot (s : IndexState) (snapshotId tenantId : Str) : Option Snapshot :=
  (s.find snapshotId).filter fun x => x.tenantId = tenantId

def IndexState.activeOf (s : IndexState) (tenantId : Str) : Option ActiveIndex :=
  s.active.find? fun a => a.tenantId = tenantId

def IndexState.activationsOf (s : IndexState) (tenantId : Str) : List Activation :=
  s.activations.filter fun v => v.tenantId = tenantId

/-- `UPDATE ... WHERE snapshot_id = ?` -/
def IndexState.modify (s : IndexState) (snapshotId : Str) (f : Snapshot → Snapshot) : IndexState :=
  { s with snapshots := s.snapshots.map fun x => if x.snapshotId = snapshotId then f x else x }

/-! ## Manifests -/

variable (P : Platform) (repr : PyVal → Str)

/-- What `entry.get` gives for the four fields of an entry. -/
structure RawEntry where
  source : PyVal
  chunk : PyVal
  contentSha256 : PyVal
  sourceSha256 : PyVal

/-- `f"{source}#{chunk}"` -/
def entryName (source : Str) (chunk : Nat) : Str := source ++ lit "#" ++ (intLit chunk).text

/-- `_safe_source`. A path without empty parts and dots is its own normal form, and not absolute. -/
def safeSource : PyVal → Option Str
  | .str s =>
    if s = [] ∨ (92 : CodePoint) ∈ s ∨ (0 : CodePoint) ∈ s then none
    else if (s.splitOn 47).any fun part => part = [] ∨ part = lit "." ∨ part = lit ".." then none
    else some s
  | _ => none

/-- `isinstance(chunk, int) and not isinstance(chunk, bool) and chunk >= 0` -/
def chunkNumber : PyVal → Option Nat
  | .int i => if 0 ≤ i then some i.toNat else none
  | _ => none

/-- `_HASH_RE.fullmatch` -/
def hashText : PyVal → Option Str
  | .str s =>
    let isHex :=
      fun c : CodePoint => decide ((48 ≤ c.val ∧ c.val ≤ 57) ∨ (97 ≤ c.val ∧ c.val ≤ 102))
    if s.length = 64 ∧ s.all isHex = true then some s else none
  | _ => none

/-- What is asked of one value, with the error where it is not met. -/
def require {α : Type} (value : Option α) (message : Str) : Except PyError α :=
  match value with
  | none => .error (.valueError message)
  | some a => .ok a

def normalizeEntry (raw : RawEntry) : Except PyError ManifestEntry := do
  let source ← require (safeSource raw.source)
    (lit "unsafe relative POSIX source: " ++ repr raw.source)
  let chunk ← require (chunkNumber raw.chunk) (lit "invalid chunk number for " ++ repr raw.source)
  let contentSha256 ← require (hashText raw.contentSha256)
    (lit "invalid content SHA-256 for " ++ entryName source chunk)
  let sourceSha256 ← require (hashText raw.sourceSha256)
    (lit "invalid source SHA-256 for " ++ source)
  return ⟨source, chunk, contentSha256, sourceSha256⟩

/-- The loop over the entries, with the keys seen so far. -/
def normalizeFrom (seen : List Key) : List RawEntry → Except PyError (List ManifestEntry)
  | [] => .ok []
  | raw :: rest => do
    let entry ← normalizeEntry repr raw
    raiseIf (entry.key ∈ seen)
      (.valueError (lit "duplicate manifest entry: " ++ entryName entry.source entry.chunk))
    let entries ← normalizeFrom (entry.key :: seen) rest
    return entry :: entries

/-- `sorted(..., key=lambda item: (item["source"], item["chunk"]))` -/
def sortEntries (entries : List ManifestEntry) : List ManifestEntry :=
  entries.mergeSort fun a b =>
    decide (a.source < b.source ∨ (a.source = b.source ∧ a.chunk ≤ b.chunk))

/-- The entries of one source. -/
def entriesOf (entries : List ManifestEntry) (source : Str) : List ManifestEntry :=
  entries.filter fun e => e.source = source

/-- `_normalize_manifest` -/
def normalizeManifest (raw : List RawEntry) : Except PyError (List ManifestEntry) := do
  let entries ← normalizeFrom repr [] raw
  raiseIf (∃ a ∈ entries, ∃ b ∈ entries, a.source = b.source ∧ a.sourceSha256 ≠ b.sourceSha256)
    (.valueError (lit "all chunks from one source must carry the same source_sha256"))
  raiseIf (∃ a ∈ entries, ((entriesOf entries a.source).map ManifestEntry.chunk).mergeSort ≠
      List.range (entriesOf entries a.source).length)
    (.valueError (lit "chunks for each source must be contiguous from zero"))
  return sortEntries entries

def ManifestEntry.dict (e : ManifestEntry) : PyVal :=
  .dict [(.str (lit "source"), .str e.source), (.str (lit "chunk"), .int e.chunk),
    (.str (lit "content_sha256"), .str e.contentSha256),
    (.str (lit "source_sha256"), .str e.sourceSha256)]

/-- `manifest_sha256`, of entries that are normalized. -/
def manifestSha256 (entries : List ManifestEntry) : Except PyError Str := do
  let payload ← canonicalBytes P (.list (entries.map ManifestEntry.dict))
  return P.hexdigest payload

/-! ## The transactions -/

/-- The arguments of `begin_snapshot`, with the id that is drawn and the time. -/
structure BeginCall where
  tenantId : Str
  manifest : List RawEntry
  verifySources : Bool
  sourceRoot : Option Str
  uuid : Str
  now : Str

/-- The texts that go into the tables. -/
def BeginCall.texts (call : BeginCall) (entries : List ManifestEntry) : List Str :=
  call.tenantId :: call.sourceRoot.toList ++ entries.map ManifestEntry.source

/-- `begin_snapshot` -/
def beginSnapshot (s : IndexState) (call : BeginCall) : Except PyError (IndexState × Snapshot) := do
  raiseIf (strip call.tenantId = []) (.valueError (lit "tenant_id must not be empty"))
  let entries ← normalizeManifest repr call.manifest
  raiseIf (entries = []) (.valueError (lit "refusing to publish an empty source manifest"))
  raiseIf (call.verifySources = true ∧ strip (call.sourceRoot.getD []) = [])
    (.valueError (lit "source_root is required when verify_sources is enabled"))
  let digest ← manifestSha256 P entries
  raiseIf (∃ text ∈ call.texts entries, encode text = none) .unicodeEncodeError
  raiseIf ((s.find call.uuid).isSome = true)
    (.databaseError (lit "UNIQUE constraint failed: rag_index_snapshots.snapshot_id"))
  let snapshot : Snapshot :=
    { snapshotId := call.uuid
      tenantId := call.tenantId
      collectionName := lit "rag_snapshot_" ++ call.uuid
      manifestSha256 := digest
      expectedPoints := entries.length
      sourceCount := (entries.map ManifestEntry.source).dedup.length
      baseSnapshotId := (s.activeOf call.tenantId).map ActiveIndex.snapshotId
      verifySources := call.verifySources
      sourceRoot := call.sourceRoot
      status := .building
      createdAt := call.now
      activatedAt := none
      manifest := entries.map fun e => ⟨e, .free⟩ }
  return ({ s with snapshots := s.snapshots ++ [snapshot] }, snapshot)

/-- A document of a batch: what `doc.get` gives for its fields, and whether it has a text. -/
structure Document where
  source : PyVal
  chunk : PyVal
  text : Option PyVal
  sourceSha256 : PyVal

/-- A document whose fields have their types. -/
structure CheckedDocument where
  key : Key
  text : Option Str
  sourceSha256 : PyVal

/-- The first loop of `validate_snapshot_batch`. -/
def checkDocuments (seen : List Key) : List Document → Except PyError (List CheckedDocument)
  | [] => .ok []
  | doc :: docs => do
    let untyped := lit "document requires safe relative source and non-negative chunk"
    let source ← require (safeSource doc.source) untyped
    let chunk ← require (chunkNumber doc.chunk) untyped
    let text ← require
      (match doc.text with | some (.str text) => some (some text) | none => some none | _ => none)
      (lit "document text must be a string: " ++ entryName source chunk)
    raiseIf ((source, chunk) ∈ seen)
      (.valueError (lit "duplicate document in batch: " ++ entryName source chunk))
    let rest ← checkDocuments ((source, chunk) :: seen) docs
    return ⟨(source, chunk), text, doc.sourceSha256⟩ :: rest

def Snapshot.row (x : Snapshot) (key : Key) : Option ManifestRow :=
  x.manifest.find? fun r => r.key = key

/-- The second loop: a document is the one the manifest has under its key. `doc["text"]` has no
default. -/
def matchesManifest (x : Snapshot) (doc : CheckedDocument) : Except PyError Unit :=
  let mismatch :=
    PyError.valueError (lit "document does not match manifest: " ++ entryName doc.key.1 doc.key.2)
  match doc.text.map encode with
  | none => .error (.raised (lit "KeyError") (lit "text"))
  | some none => .error .unicodeEncodeError
  | some (some text) =>
    match x.row doc.key with
    | none => .error mismatch
    | some row =>
      raiseIf (P.hexdigest text ≠ row.contentSha256 ∨ isText doc.sourceSha256 row.sourceSha256 =
        false) mismatch

/-- `validate_snapshot_batch` -/
def validateBatch (s : IndexState) (snapshotId tenantId : Str) (docs : List Document) :
    Except PyError (List CheckedDocument) := do
  let checked ← checkDocuments [] docs
  match s.getSnapshot snapshotId tenantId with
  | none => .error (.valueError (lit "snapshot not found for tenant"))
  | some x =>
    raiseIf (x.status ≠ .building)
      (.valueError (lit "snapshot is not writable (" ++ x.status.text ++ lit ")"))
    let _ ← checked.mapM (matchesManifest P x)
    return checked

/-- `UPDATE rag_snapshot_manifest SET uploaded=... WHERE snapshot_id=? AND source=? AND chunk=? AND
uploaded=...` -/
def Snapshot.mark (x : Snapshot) (key : Key) (before after : Upload) : Snapshot :=
  { x with
    manifest := x.manifest.map fun r => if r.key = key ∧
      r.uploaded = before then { r with uploaded := after } else r }

/-- The loop of `claim_snapshot_batch`: the snapshot with the reservations, and the keys that were
free. -/
def reserveAll (x : Snapshot) : List Key → Except PyError (Snapshot × List Key)
  | [] => .ok (x, [])
  | key :: keys =>
    match x.row key with
    | none => .error .typeError
    | some row =>
      match row.uploaded with
      | .done => reserveAll x keys
      | .claimed => .error (.valueError (lit "upload already in flight: " ++ entryName key.1 key.2))
      | .free => do
        let (y, claimed) ← reserveAll (x.mark key .free .claimed) keys
        return (y, key :: claimed)

/-- The second transaction of `claim_snapshot_batch`. -/
def reserveBatch (s : IndexState) (snapshotId : Str) (keys : List Key) :
    Except PyError (IndexState × List Key) :=
  match s.find snapshotId with
  | none => if keys = [] then .ok (s, []) else .error .typeError
  | some x => do
    let (y, claimed) ← reserveAll x keys
    return (s.modify snapshotId fun _ => y, claimed)

/-- The loop of `record_uploaded`. -/
def recordAll (x : Snapshot) : List Key → Except PyError Snapshot
  | [] => .ok x
  | key :: keys => do
    raiseIf ((x.row key).map ManifestRow.uploaded ≠ some .claimed)
      (.valueError (lit "upload claim missing: " ++ entryName key.1 key.2))
    recordAll (x.mark key .claimed .done) keys

/-- `record_uploaded` -/
def recordUploaded (s : IndexState) (snapshotId tenantId : Str) (keys : List Key) :
    Except PyError IndexState :=
  match s.getSnapshot snapshotId tenantId with
  | none => .error (.valueError (lit "snapshot ceased to be writable"))
  | some x => do
    raiseIf (x.status ≠ .building) (.valueError (lit "snapshot ceased to be writable"))
    let y ← recordAll x keys
    return { s.modify snapshotId (fun _ => y) with
      recorded := s.recorded ++ keys.map fun key => (snapshotId, key) }

/-- `release_snapshot_batch` -/
def releaseBatch (s : IndexState) (snapshotId : Str) (keys : List Key) : IndexState :=
  s.modify snapshotId fun x => keys.foldl (fun x key => x.mark key .claimed .free) x

/-- The tables with another active snapshot of a tenant. -/
def IndexState.activate (s : IndexState) (x : Snapshot) (now : Str) : IndexState :=
  let retired := match s.activeOf x.tenantId with
    | none => s
    | some a => s.modify a.snapshotId fun y => { y with status := .retired }
  let moved :=
    retired.modify x.snapshotId fun y => { y with status := .active, activatedAt := some now }
  let info : ActiveIndex :=
    ⟨x.tenantId, x.snapshotId, x.collectionName, x.manifestSha256, x.expectedPoints,
      x.sourceCount, now⟩
  { moved with
    active := (s.active.filter fun a => a.tenantId ≠ x.tenantId) ++ [info]
    managed := if s.managed.any fun m => m.1 = x.tenantId then s.managed else s.managed ++
      [(x.tenantId, now)]
    activations := s.activations ++ [⟨x.tenantId, x.snapshotId, x.baseSnapshotId⟩] }

/-- `commit_snapshot` -/
def commitSnapshot (s : IndexState) (snapshotId tenantId : Str) (qdrantPoints : Int) (now : Str) :
    Except PyError IndexState :=
  match s.getSnapshot snapshotId tenantId with
  | none => .error (.valueError (lit "snapshot not found or not building"))
  | some x => do
    raiseIf (x.status ≠ .building) (.valueError (lit "snapshot not found or not building"))
    let uploaded := (x.manifest.filter fun r => r.uploaded = .done).length
    raiseIf (uploaded ≠ x.expectedPoints ∨ qdrantPoints ≠ x.expectedPoints)
      (.valueError (lit "incomplete snapshot: expected=" ++ (intLit x.expectedPoints).text ++
        lit " uploaded=" ++ (intLit uploaded).text ++ lit " points=" ++ (intLit qdrantPoints).text))
    raiseIf ((s.activeOf tenantId).map ActiveIndex.snapshotId ≠ x.baseSnapshotId)
      (.valueError (lit "snapshot base is stale; another snapshot activated during this build"))
    return s.activate x now

/-- `abort_snapshot`. The row that is returned is the one before. -/
def abortSnapshot (s : IndexState) (snapshotId tenantId : Str) :
    Except PyError (IndexState × Option Snapshot) :=
  match s.getSnapshot snapshotId tenantId with
  | none => .ok (s, none)
  | some x =>
    if x.status = .aborted then .ok (s, some x)
    else do
      raiseIf (x.status ≠ .building)
        (.valueError (lit "cannot abort snapshot in state " ++ x.status.text))
      return (s.modify snapshotId fun y => { y with status := .aborted }, some x)

/-! ## The system -/

/-- A transaction. Batches are reserved in any order and at any time after they have been validated;
what is recorded or released need not be what the caller has claimed. -/
inductive Event where
  | begin (call : BeginCall)
  | validate (snapshotId tenantId : Str) (docs : List Document)
  | reserve (i : Nat)
  | record (snapshotId tenantId : Str) (keys : List Key)
  | release (snapshotId : Str) (keys : List Key)
  | commit (snapshotId tenantId : Str) (qdrantPoints : Int) (now : Str)
  | abort (snapshotId tenantId : Str)

/-- The tables a transaction leaves. -/
def Event.run (s : IndexState) : Event → Except PyError IndexState
  | .begin call => (beginSnapshot P repr s call).map Prod.fst
  | .validate snapshotId tenantId docs =>
    (validateBatch P s snapshotId tenantId docs).map fun checked =>
      { s with validated := s.validated ++ [(snapshotId, checked.map CheckedDocument.key)] }
  | .reserve i =>
    match s.validated[i]? with
    | none => .ok s
    | some (snapshotId, keys) =>
      (reserveBatch { s with validated := s.validated.eraseIdx i } snapshotId keys).map Prod.fst
  | .record snapshotId tenantId keys => recordUploaded s snapshotId tenantId keys
  | .release snapshotId keys => .ok (releaseBatch s snapshotId keys)
  | .commit snapshotId tenantId qdrantPoints now =>
    commitSnapshot s snapshotId tenantId qdrantPoints now
  | .abort snapshotId tenantId => (abortSnapshot s snapshotId tenantId).map Prod.fst

/-- One transaction. One that raises is rolled back. -/
def step (s : IndexState) (e : Event) : Option IndexState :=
  match e.run P repr s with
  | .error _ => some s
  | .ok t => some t

end Rag
