import Msb.Infra.Lines
import Msb.Infra.Ranking
import Msb.Ledger.Notary

/-!
# The vector stores

`retrieval/vector_store.py`: one interface, with a Qdrant collection behind it or a table of SQLite.
The documents carry their embeddings, and so do the queries.

The Qdrant server is a parameter. What it is documented to do is a hypothesis of the results that
need it (`Qdrant.Documented`): an upsert replaces the points with the ids it brings, a query gives
the points of the collection that score best. The numbers are those of an ordered field, and `x **
0.5` is a function of it.

* `QdrantVectorStore.search`, `SQLiteVectorStore.search`
-/

namespace Retrieval

open Py Ledger Ranking

variable {F : Type} [Field F] [LinearOrder F]

/-! ## Documents and hits -/

structure VectorDocument (F : Type) where
  id : Str
  text : Str
  source : Str
  chunk : Int
  metadata : List (PyKey × PyVal)
  embedding : List F

structure VectorHit (F : Type) where
  id : Str
  score : F
  text : Str
  source : Str
  metadata : PyVal

/-- What the stores are left to: `x ** 0.5`, `uuid.uuid5`, `str` of what is no text, and the number
of variables that SQLite takes in one statement. -/
structure Env (F : Type) where
  sqrt : F → F
  uuid5 : Str → Str
  repr : PyVal → Str
  maxVariables : Nat

variable (E : Env F)

/-- `str(v)` -/
def str (v : PyVal) : Str :=
  match v with
  | .str s => s
  | v => E.repr v

/-- `_cosine` -/
def cosine (a b : List F) : F :=
  if a = [] ∨ b = [] ∨ a.length ≠ b.length then 0
  else
    let dot := (List.zipWith (· * ·) a b).sum
    let na := E.sqrt (a.map fun x => x * x).sum
    let nb := E.sqrt (b.map fun y => y * y).sum
    if na = 0 ∨ nb = 0 then 0 else dot / (na * nb)

/-! ## The Qdrant server -/

/-- A payload is a dict with texts for keys. -/
abbrev Payload := List (Str × PyVal)

/-- `payload.get(key)` -/
def Payload.get (p : Payload) (key : Str) : Option PyVal :=
  (p.find? fun item => item.1 = key).map Prod.snd

/-- A point. -/
structure Point (F : Type) where
  id : Str
  vector : List F
  payload : Payload

/-- A point that a query has found. -/
structure ScoredPoint (F : Type) where
  id : Str
  score : F
  payload : Payload

/-- A server: its states, what a collection holds, and the calls of the client, `none` where they
raise. -/
structure Qdrant (F σ : Type) where
  empty : σ
  points : σ → Str → Option (List (Point F))
  validName : Str → Bool
  createCollection : σ → Str → Option σ
  upsert : σ → Str → List (Point F) → Option σ
  queryPoints : σ → Str → List F → Int → Option (List (ScoredPoint F))
  delete : σ → Str → List Str → Option σ

/-- `_EMBED_DIM` -/
def embedDim : Nat := 768

/-- A point among others: the one with its id is replaced. -/
def putPoint (points : List (Point F)) (p : Point F) : List (Point F) :=
  (points.filter fun q => q.id ≠ p.id) ++ [p]

/-- A point, with its score for the query. -/
def Point.scored (query : List F) (p : Point F) : ScoredPoint F :=
  ⟨p.id, cosine E query p.vector, p.payload⟩

/-- What is documented of a server, for collections of vectors of `_EMBED_DIM` numbers. In which
order a collection has its points is not. -/
structure Qdrant.Documented {σ : Type} (Q : Qdrant F σ) : Prop where
  empty : ∀ name, Q.points Q.empty name = none
  /-- A collection is created once. -/
  create : ∀ s name, Q.points s name = none → Q.validName name = true →
    ∃ t, Q.createCollection s name = some t ∧ Q.points t name = some []
  exists_already : ∀ s name, Q.points s name ≠ none → Q.createCollection s name = none
  /-- The points with the ids that come are replaced. -/
  upsert : ∀ s name points new, Q.points s name = some points →
    (∀ p ∈ new, p.vector.length = embedDim) → ∃ t stored, Q.upsert s name new = some t ∧
      Q.points t name = some stored ∧ stored.Perm (new.foldl putPoint points)
  /-- The points that score best. -/
  query : ∀ s name points query (limit : Int), Q.points s name = some points →
    query.length = embedDim → 1 ≤ limit → ∃ order : List (Point F), order.Perm points ∧
      Q.queryPoints s name query limit = some
        (((ranked (fun p => cosine E query p.vector) order).take limit.toNat).map
          (Point.scored E query))
  delete : ∀ s name points ids, Q.points s name = some points → ∃ t left,
    Q.delete s name ids = some t ∧ Q.points t name = some left ∧
      left.Perm (points.filter fun p => p.id ∉ ids)
  not_found : ∀ s name ids, Q.points s name = none → Q.delete s name ids = none

/-- `rag._collection` -/
def collection (tenantId : Str) : Str :=
  lit "tenant_" ++ replace (lit " ") (lit "_")
    (replace (lit ":") (lit "_") (replace (lit "/") (lit "_") tenantId))

/-! ## The Qdrant store -/

namespace QdrantVectorStore

variable {σ : Type} (Q : Qdrant F σ) (server : σ) (tenantId : Str)

def unavailable (message : Str) : PyError := .raised (lit "VectorStoreUnavailable") message

/-- `_point_id` -/
def pointId (id : Str) (chunk : Int) : Str := E.uuid5 (id ++ lit "#" ++ (intLit chunk).text)

def point (d : VectorDocument F) : Point F :=
  { id := pointId E d.id d.chunk
    vector := d.embedding
    payload := [(lit "id", .str d.id), (lit "text", .str d.text), (lit "source", .str d.source),
      (lit "chunk", .int d.chunk), (lit "metadata", .dict d.metadata)] }

/-- `_ensure_collection`. Whatever is raised is passed over. -/
def ensureCollection : σ := (Q.createCollection server (collection tenantId)).getD server

/-- `index`, and `update` -/
def index (docs : List (VectorDocument F)) : Except PyError Nat × σ :=
  let ready := ensureCollection Q server tenantId
  match Q.upsert ready (collection tenantId) (docs.map (point E)) with
  | none => (.error (unavailable (lit "qdrant upsert failed")), ready)
  | some stored => (.ok docs.length, stored)

/-- `payload.get("metadata", {}) or {}` -/
def metadataOf (p : Payload) : PyVal :=
  match p.get (lit "metadata") with
  | some v => if truthy v then v else .dict []
  | none => .dict []

def hit (p : ScoredPoint F) : VectorHit F :=
  { id := str E ((p.payload.get (lit "id")).getD (.str p.id))
    score := p.score
    text := str E ((p.payload.get (lit "text")).getD (.str []))
    source := str E ((p.payload.get (lit "source")).getD (.str []))
    metadata := metadataOf p.payload }

def search (query : List F) (limit : Int) : Except PyError (List (VectorHit F)) :=
  match Q.queryPoints server (collection tenantId) query limit with
  | none => .error (unavailable (lit "qdrant search failed"))
  | some points => .ok (points.map (hit E))

/-- `delete`. The ids are those of the first chunks. -/
def delete (ids : List Str) : Except PyError Nat × σ :=
  if ids = [] then (.ok 0, server)
  else
    match Q.delete server (collection tenantId) (ids.map fun id => pointId E id 0) with
    | none => (.error (unavailable (lit "qdrant delete failed")), server)
    | some left => (.ok ids.length, left)

end QdrantVectorStore

/-! ## The SQLite store -/

/-- A row of `vectors`, in the order in which the rows were written. The embedding and the metadata
are kept as what their JSON reads back as. -/
structure Row (F : Type) where
  id : Str
  tenantId : Str
  text : Str
  source : Str
  chunk : Int
  embedding : List F
  metadata : PyVal
  ts : F

namespace SQLiteVectorStore

variable (rows : List (Row F)) (tenantId : Str)

/-- The row of a document. -/
def rowOf (d : VectorDocument F) (now : F) : Except PyError (Row F) := do
  let metadata ← dumps KeySort.insertion false plainStyle (.dict d.metadata)
  raiseIf (∃ text ∈ [d.id, tenantId, d.text, d.source, metadata], encode text = none)
    .unicodeEncodeError
  raiseIf (d.chunk < -2 ^ 63 ∨ 2 ^ 63 ≤ d.chunk)
    (.raised (lit "OverflowError") (lit "Python int too large to convert to SQLite INTEGER"))
  return ⟨d.id, tenantId, d.text, d.source, d.chunk, d.embedding,
    ofJson (toJson KeySort.insertion false (.dict d.metadata)), now⟩

/-- `REPLACE INTO vectors` -/
def put (rows : List (Row F)) (r : Row F) : List (Row F) :=
  (rows.filter fun q => ¬ (q.tenantId = r.tenantId ∧ q.id = r.id)) ++ [r]

/-- The loop of `index`, with the time of each write. -/
def indexFrom (rows : List (Row F)) : List (VectorDocument F × F) → Except PyError (List (Row F))
  | [] => .ok rows
  | (d, now) :: docs => do
    let row ← rowOf tenantId d now
    indexFrom (put rows row) docs

/-- `index`, and `update`: one transaction -/
def index (docs : List (VectorDocument F × F)) : Except PyError Nat × List (Row F) :=
  match indexFrom tenantId rows docs with
  | .error e => (.error e, rows)
  | .ok stored => (.ok docs.length, stored)

/-- `WHERE tenant_id = ?` -/
def ownRows : List (Row F) := rows.filter fun r => r.tenantId = tenantId

/-- `ORDER BY ts DESC`. Of two rows with one time the one written later comes first. -/
def newestFirst : List (Row F) := ranked Row.ts (ownRows rows tenantId).reverse

/-- `max(limit * 10, 10)` -/
def window (limit : Int) : Nat := (max (limit * 10) 10).toNat

def hit (query : List F) (r : Row F) : VectorHit F :=
  ⟨r.id, cosine E query r.embedding, r.text, r.source, r.metadata⟩

/-- `scored[:limit]` -/
def upTo {α : Type} (limit : Int) (xs : List α) : List α :=
  if 0 ≤ limit then xs.take limit.toNat else xs.take (xs.length - limit.natAbs)

def search (query : List F) (limit : Int) : Except PyError (List (VectorHit F)) :=
  match encode tenantId with
  | none => .error .unicodeEncodeError
  | some _ =>
    if 2 ^ 63 ≤ window limit then
      .error (.raised (lit "OverflowError")
        (lit "Python int too large to convert to SQLite INTEGER"))
    else
      let scored := ((newestFirst rows tenantId).take (window limit)).map (hit E query)
      .ok (upTo limit (ranked VectorHit.score scored))

/-- `delete` -/
def delete (ids : List Str) : Except PyError Nat × List (Row F) :=
  if ids = [] then (.ok 0, rows)
  else if E.maxVariables < ids.length + 1
    then (.error (.raised (lit "OperationalError") (lit "too many SQL variables")), rows)
  else if ∃ text ∈ tenantId :: ids, encode text = none then (.error .unicodeEncodeError, rows)
  else
    let left := rows.filter fun r => ¬ (r.tenantId = tenantId ∧ r.id ∈ ids)
    (.ok (rows.length - left.length), left)

end SQLiteVectorStore

end Retrieval
