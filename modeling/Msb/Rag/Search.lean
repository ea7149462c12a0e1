import Msb.Infra.Program
import Msb.Rag.SourceTree
import Msb.Retrieval.VectorStore

/-!
# Searching

`api/rag.py`: `rag_search`, call by call. Between two calls anything may happen to the tables and to
the source tree. The vector database may answer anything. An edit of the tree does not fall into the
middle of a walk.

* `ragSearch` — the endpoint
* `SearchCall.answer` — what its calls answer
-/

namespace Rag

open Py Ledger Machine Retrieval

variable {F : Type}

/-! ## The world -/

/-- What the service is started with: the vector backend, the hashes, and the vault. `resolve` is
`str(Path(...).expanduser().resolve())`. What is no text, and no number, is compared with a column
by the affinity of the column: as a text, or as a number. -/
structure Server (F : Type) extends Env F where
  platform : Platform
  vaultPath : Str
  resolve : Str → Str
  textAffinity : PyVal → Option Str
  integerAffinity : PyVal → Option Int

structure World where
  index : IndexState
  tree : SourceTree

/-- `http` is the exception of the web framework, `raised` any other. -/
inductive HttpError where
  | http (status : Nat) (detail : PyVal)
  | raised (e : PyError)

/-- `except ValueError`. An encoding error is one. -/
def isValueError : PyError → Bool
  | .valueError _ | .unicodeEncodeError | .jsonDecodeError => true
  | _ => false

/-- What `active_snapshot` gives. -/
structure ActiveState extends ActiveIndex where
  verifySources : Bool
  sourceRoot : Option Str
  snapshotStatus : Status

def IndexState.activeSnapshot (s : IndexState) (tenantId : Str) : Option ActiveState := do
  let a ← s.activeOf tenantId
  let x ← s.find a.snapshotId
  return ⟨a, x.verifySources, x.sourceRoot, x.status⟩

def IndexState.tenantIsManaged (s : IndexState) (tenantId : Str) : Bool :=
  (s.managed.any fun m => m.1 = tenantId) || (s.activeOf tenantId).isSome

/-- `snapshot_manifest` -/
def IndexState.manifestOf (s : IndexState) (snapshotId : Str) : List ManifestEntry :=
  match s.find snapshotId with
  | none => []
  | some x => x.manifest.map ManifestRow.toManifestEntry

variable (S : Server F)

/-- `_snapshot_source_root`: the vault, or nothing. -/
def Server.sourceRoot (a : ActiveState) : Except PyError Unit :=
  if a.tenantId = lit "wilson-vault" then .ok ()
  else
    let isTest :=
      (lit "live_test_").isPrefixOf a.tenantId || (lit "r02_eval_").isPrefixOf a.tenantId
    match a.sourceRoot with
    | some root =>
      raiseIf (¬ (isTest = true ∧ root ≠ [] ∧ S.resolve root = S.vaultPath))
        (.runtimeError (lit "source root is not authorized for currentness verification"))
    | none =>
      .error (.runtimeError (lit "source root is not authorized for currentness verification"))

/-- `_snapshot_matches_root`, at the source root of the snapshot: the sources that have changed. -/
def Server.matchesRoot (w : World) (a : ActiveState) : Except PyError (List Str) := do
  S.sourceRoot a
  let actual ← treeManifest S.platform w.tree
  return changedSources (w.index.manifestOf a.snapshotId) actual

/-! ## Hits -/

/-- An item of the results. -/
structure Hit (F : Type) where
  score : F
  text : PyVal
  source : PyVal
  chunk : PyVal
  metadata : PyVal

/-- The item of a point. -/
def hitOf (p : ScoredPoint F) : Hit F :=
  { score := p.score
    text := (p.payload.get (lit "text")).getD (.str [])
    source := (p.payload.get (lit "source")).getD (.str [])
    chunk := (p.payload.get (lit "chunk")).getD (.int 0)
    metadata := (p.payload.get (lit "metadata")).getD (.dict []) }

/-- What is compared with a column of texts. -/
def Server.asText : PyVal → Option Str
  | .str s => some s
  | v => S.textAffinity v

/-- What is compared with a column of integers. -/
def Server.asInteger : PyVal → Option Int
  | .int i => some i
  | v => S.integerAffinity v

/-- The key of a hit, as the statement binds it. -/
def Hit.key (hit : Hit F) : Option Key := do
  let source ← S.asText hit.source
  let chunk ← S.asInteger hit.chunk
  if 0 ≤ chunk then some (source, chunk.toNat) else none

/-- `WHERE snapshot_id=? AND source=? AND chunk=? AND uploaded=1` -/
def Snapshot.uploadedRow (x : Snapshot) (key : Key) : Option ManifestRow :=
  x.manifest.find? fun r => r.key = key ∧ r.uploaded = .done

/-- `meta.get(key) == s` -/
def metaIs (metadata : PyVal) (key s : Str) : Bool :=
  match metadata with
  | .dict items => (getItem items key).any fun v => isText v s
  | _ => false

/-- The loop of `validate_snapshot_hits`. -/
def validateHit (x : Snapshot) (hit : Hit F) : Except PyError Unit :=
  let name := str S.toEnv hit.source ++ lit "#" ++ str S.toEnv hit.chunk
  match encode (str S.toEnv hit.text) with
  | none => .error .unicodeEncodeError
  | some bytes =>
    match (hit.key S).bind x.uploadedRow with
    | none => .error (.valueError (lit "retrieved point does not match active manifest: " ++ name))
    | some row => do
      raiseIf (row.contentSha256 ≠ S.platform.hexdigest bytes)
        (.valueError (lit "retrieved point does not match active manifest: " ++ name))
      raiseIf (metaIs hit.metadata (lit "_rag_content_sha256")
        (S.platform.hexdigest bytes) = false ∨
          metaIs hit.metadata (lit "_rag_source_sha256") row.sourceSha256 = false ∨
          metaIs hit.metadata (lit "_rag_snapshot_id") x.snapshotId = false)
        (.valueError (lit "retrieved point hash/provenance metadata mismatch: " ++ name))

/-- `validate_snapshot_hits` -/
def validateHits (s : IndexState) (snapshotId tenantId : Str) (hits : List (Hit F)) :
    Except PyError Unit :=
  match s.find snapshotId with
  | none => .error (.valueError (lit "retrieved snapshot is not active"))
  | some x => do
    raiseIf (x.tenantId ≠ tenantId ∨ x.status ≠ .active)
      (.valueError (lit "retrieved snapshot is not active"))
    let _ ← hits.mapM (validateHit S x)
    return ()

/-! ## The calls -/

inductive SearchCall (F : Type) where
  | activeSnapshot (tenantId : Str)
  | tenantIsManaged (tenantId : Str)
  | getCollection (name : Str)
  | matchesRoot (active : ActiveState)
  | embed (text : Str)
  | queryPoints (name : Str) (query : List F) (limit : Int)
  | validateHits (snapshotId tenantId : Str) (hits : List (Hit F))

def SearchCall.Reply : SearchCall F → Type
  | .activeSnapshot _ => Option ActiveState
  | .tenantIsManaged _ => Bool
  | .getCollection _ => Unit
  | .matchesRoot _ => List Str
  | .embed _ => List F
  | .queryPoints _ _ _ => List (ScoredPoint F)
  | .validateHits _ _ _ => Unit

abbrev SearchAct (F : Type) := Act (SearchCall F) (fun c => Except HttpError c.Reply) HttpError Unit

/-- What is left to chance in a call: an exception of the store that is asked, the embedding, and
the points that are found. -/
structure SearchEnv (F : Type) where
  fault : Option PyError
  embedding : List F
  points : List (ScoredPoint F)

/-- What the call answers in a world without a fault. -/
def SearchCall.answerIn (w : World) (env : SearchEnv F) : (c : SearchCall F) →
    Except PyError c.Reply
  | .activeSnapshot tenantId => .ok (w.index.activeSnapshot tenantId)
  | .tenantIsManaged tenantId => .ok (w.index.tenantIsManaged tenantId)
  | .getCollection _ => .ok ()
  | .matchesRoot active => S.matchesRoot w active
  | .embed _ => .ok env.embedding
  | .queryPoints _ _ _ => .ok env.points
  | .validateHits snapshotId tenantId hits => Rag.validateHits S w.index snapshotId tenantId hits

def SearchCall.answer (w : World) (env : SearchEnv F) (c : SearchCall F) :
    Except HttpError c.Reply :=
  match env.fault with
  | some e => .error (.raised e)
  | none => (c.answerIn S w env).mapError HttpError.raised

/-! ## The endpoint -/

structure SearchRequest where
  tenantId : Str
  query : Str
  limit : Int

inductive IndexStatus where
  | notYetPublished
  | verifiedCurrent
  | sourceCurrentnessUnknown
  | legacyUnverified
  deriving DecidableEq

/-- The response. What it says of the currentness is what the active snapshot says. -/
structure SearchResponse (F : Type) where
  tenantId : Str
  query : Str
  results : List (Hit F)
  indexStatus : IndexStatus
  currentness : Option ActiveState

def detail (s : String) : PyVal := .str (lit s)

/-- The detail of a refusal, with its code. -/
def codedDetail (code message : String) (more : List (PyKey × PyVal)) : PyVal :=
  .dict ([(.str (lit "code"), detail code), (.str (lit "message"), detail message)] ++ more)

/-- `except RuntimeError` -/
def unverifiable (e : HttpError) : HttpError :=
  match e with
  | .raised (.runtimeError _) =>
    .http 503 (detail "could not verify configured source currentness; results withheld")
  | e => e

/-- `except ValueError` -/
def refused (e : HttpError) : HttpError :=
  match e with
  | .raised e =>
    if isValueError e then .http 503
      (detail "active snapshot integrity/currentness check failed; results withheld")
    else .raised e
  | e => e

def ask (c : SearchCall F) : SearchAct F c.Reply := Act.call c

/-- `if c: raise e` -/
def failIf (c : Prop) [Decidable c] (e : HttpError) : SearchAct F Unit :=
  Act.lift (if c then .error e else .ok ())

/-- `try: act` with another exception in the place of one that is raised. -/
def mapRaised {α : Type} (f : HttpError → HttpError) (act : SearchAct F α) : SearchAct F α :=
  tryCatch act fun e => throw (f e)

/-- The collection that is searched must be there. -/
def openCollection (name : Str) : SearchAct F Unit :=
  mapRaised (fun _ => .http 503 (.str (lit "Active collection unavailable: " ++ name)))
    (ask (.getCollection name))

/-- The query is embedded, and the collection asked. -/
def findHits (request : SearchRequest) (name : Str) : SearchAct F (List (Hit F)) := do
  let query : List F ← ask (.embed request.query)
  let points : List (ScoredPoint F) ← ask (.queryPoints name query request.limit)
  return points.map hitOf

/-- A tenant without snapshots. -/
def legacySearch (request : SearchRequest) : SearchAct F (SearchResponse F) := do
  openCollection (collection request.tenantId)
  let results ← findHits request (collection request.tenantId)
  return ⟨request.tenantId, request.query, results, .legacyUnverified, none⟩

/-- The checks before the query. -/
def checkBefore (active : ActiveState) : SearchAct F Unit := do
  failIf (active.snapshotStatus ≠ .active)
    (.http 503 (detail "active snapshot pointer/state mismatch; results withheld"))
  failIf (active.verifySources = false) (.http 409 (codedDetail "source_currentness_unknown"
    "This snapshot has no configured source tree; authoritative search is withheld."
    [(.str (lit "snapshot_id"), .str active.snapshotId)]))
  let changed : List Str ← mapRaised unverifiable (ask (.matchesRoot active))
  failIf (changed ≠ []) (.http 409 (codedDetail "index_stale"
    "Vault differs from the active index snapshot; results withheld until a verified reindex."
    [(.str (lit "changed_sources"), .list ((changed.take 50).map .str)),
      (.str (lit "changed_source_count"), .int changed.length),
      (.str (lit "snapshot_id"), .str active.snapshotId)]))

/-- The checks after the query. -/
def checkAfter (tenantId : Str) (active : ActiveState) (results : List (Hit F)) :
    SearchAct F Unit :=
  mapRaised refused do
    failIf (active.snapshotStatus ≠ .active)
      (.raised (.valueError (lit "active snapshot pointer/state mismatch")))
    ask (.validateHits active.snapshotId tenantId results)
    let latest : Option ActiveState ← ask (.activeSnapshot tenantId)
    failIf (latest.map (fun a => a.snapshotId) ≠ some active.snapshotId)
      (.raised (.valueError (lit "active snapshot changed while this search was running")))
    if active.verifySources = true then do
      let changed : List Str ← mapRaised unverifiable (ask (.matchesRoot active))
      failIf (changed ≠ []) (.raised (.valueError (lit "source changed during search")))
    else pure ()

/-- A tenant with an active snapshot. -/
def activeSearch (request : SearchRequest) (active : ActiveState) :
    SearchAct F (SearchResponse F) := do
  openCollection active.collectionName
  checkBefore active
  let results ← findHits request active.collectionName
  checkAfter request.tenantId active results
  return ⟨request.tenantId, request.query, results,
    if active.verifySources = true then .verifiedCurrent else .sourceCurrentnessUnknown,
    some active⟩

/-- `rag_search` -/
def ragSearch (request : SearchRequest) : SearchAct F (SearchResponse F) := do
  let active : Option ActiveState ← ask (.activeSnapshot request.tenantId)
  let managed : Bool ← ask (.tenantIsManaged request.tenantId)
  failIf (request.tenantId = lit "wilson-vault" ∧ active.isNone = true)
    (.http 409 (codedDetail "legacy_unverified"
    "The vault has no verified source snapshot; legacy retrieval is withheld until migration." []))
  match active with
  | none =>
    if managed = true then return ⟨request.tenantId, request.query, [], .notYetPublished, none⟩
    else legacySearch request
  | some active => activeSearch request active

end Rag
