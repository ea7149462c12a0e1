import Msb.Infra.Keyed
import Msb.Infra.Run
import Msb.Infra.Hex
import Msb.Infra.Lines

/-!
# The memory fabric

`memory_fabric/models.py`, `store.py` and `fabric.py`: the memories of all tenants in one table, a
second table for the transitions of their verification state, and the calls that write to the two.

Every write is a transaction of its own: what a call has written before it raises stays. A text with
a surrogate has no UTF-8 form; a statement that is given one raises before it writes. The numbers
are an arbitrary type, with the operations of the platform on them, and one reading of the clock
stands for those of a call.

* `step` — one call
-/

namespace Memory

open Py

/-! ## Memories -/

inductive MemoryType where
  | episodic
  | semantic
  | procedural
  | architectural
  deriving DecidableEq

inductive VerificationState where
  | unverified
  | verified
  | contradicted
  | deprecated
  deriving DecidableEq

def VerificationState.text : VerificationState → Str
  | .unverified => lit "UNVERIFIED"
  | .verified => lit "VERIFIED"
  | .contradicted => lit "CONTRADICTED"
  | .deprecated => lit "DEPRECATED"

/-- `VERIFICATION_TRANSITIONS` -/
def transitions : VerificationState → List VerificationState
  | .unverified => [.verified, .contradicted, .deprecated]
  | .verified => [.contradicted, .deprecated]
  | .contradicted => [.verified, .deprecated]
  | .deprecated => []

structure MemoryItem (F : Type) where
  memoryId : Str
  type : MemoryType
  content : Str
  tags : List Str
  importance : F
  sourceAgent : Str
  source : Str
  taskId : Str
  tenant : Str
  project : Str
  tech : Str
  verificationState : VerificationState
  decayFactor : F
  relationships : List Str
  createdAt : F
  updatedAt : F
  lastAccessedAt : F
  accessCount : Nat
  archived : Bool

/-- The texts of the columns. The two lists are stored as JSON, which gives them back. -/
def MemoryItem.texts {F : Type} (item : MemoryItem F) : List Str :=
  [item.memoryId, item.content, item.sourceAgent, item.source, item.taskId, item.tenant,
    item.project, item.tech] ++ item.tags ++ item.relationships

/-! ## The platform -/

/-- The floats of the platform. `pow` raises where the result is too large or not real. -/
structure Floats (F : Type) where
  literal : ℚ → F
  lt : F → F → Bool
  le : F → F → Bool
  sub : F → F → F
  mul : F → F → F
  div : F → F → F
  pow : F → F → Except PyError F
  round4 : F → F

/-- What the fabric calls outside of its own package: `redact`, `str.lower`, the `LIKE` of the
database and the hash. -/
structure Platform (F : Type) where
  float : Floats F
  redact : Str → Str
  lower : Str → Str
  matchesLike : MemoryItem F → Str → Bool
  sha256 : Bytes → Bytes

variable {F : Type} (P : Platform F)

namespace Floats

variable (A : Floats F)

/-- `max(a, b)` -/
def max (a b : F) : F := if A.lt a b then b else a

/-- `min(a, b)` -/
def min (a b : F) : F := if A.lt b a then b else a

/-- `max(0.0, min(1.0, x))` -/
def clamp (x : F) : F := A.max (A.literal 0) (A.min (A.literal 1) x)

/-- `age / (30 * 24 * 3600)`, for the age of what was last accessed at `t` -/
def periods (now t : F) : F := A.div (A.max (A.literal 0) (A.sub now t)) (A.literal 2592000)

end Floats

/-- `s.split()` -/
def words (s : Str) : List Str := (s.splitOnP isSpace).filter fun w => w ≠ []

/-- `sub in s` -/
def containsText (sub s : Str) : Bool := s.tails.any fun t => sub.isPrefixOf t

/-- Each of the texts has a UTF-8 form. -/
def Encodes (texts : List Str) : Prop := ∀ s ∈ texts, (encode s).isSome = true

instance instDecidableEncodes (texts : List Str) : Decidable (Encodes texts) :=
  inferInstanceAs (Decidable (∀ s ∈ texts, (encode s).isSome = true))

/-- The parameters of a statement. -/
def bindTexts (texts : List Str) : Except PyError Unit :=
  raiseIf (¬ Encodes texts) .unicodeEncodeError

/-! ## The store -/

/-- A row of `verification_history`. -/
@[ext]
structure VerificationRow (F : Type) where
  memoryId : Str
  fromState : VerificationState
  toState : VerificationState
  by' : Str
  requestedBy : Str
  reason : Str
  at' : F
  requestId : Str
  serverVersion : Str
  previousHash : Str
  recordHash : Str

/-- The two tables, the rows of each in the order of insertion. -/
structure Db (F : Type) where
  items : List (MemoryItem F)
  history : List (VerificationRow F)

def Db.empty : Db F := ⟨[], []⟩

/-- What is stored where `item` is written over `old`: the columns that the conflict clause does not
name stay. -/
def MemoryItem.over (item old : MemoryItem F) : MemoryItem F :=
  { item with
    type := old.type, tenant := old.tenant, createdAt := old.createdAt,
    lastAccessedAt := old.lastAccessedAt, accessCount := old.accessCount }

def Db.find (db : Db F) (memoryId : Str) : Option (MemoryItem F) :=
  Keyed.find MemoryItem.memoryId memoryId db.items

def Db.put (db : Db F) (item : MemoryItem F) : Db F :=
  let stored := (db.find item.memoryId).elim item item.over
  { db with items := Keyed.put MemoryItem.memoryId stored db.items }

def Db.upsert (db : Db F) (item : MemoryItem F) : Except PyError (Db F) := do
  bindTexts item.texts
  return db.put item

/-- What `record_verification` is called with. -/
structure Transition where
  memoryId : Str
  fromState : VerificationState
  toState : VerificationState
  by' : Str := []
  requestedBy : Str := []
  reason : Str := []
  requestId : Str := []
  serverVersion : Str := []

def colon : Str := [58]

/-- The text that is hashed. -/
def Transition.record (t : Transition) (previousHash : Str) : Str :=
  colon.intercalate [t.memoryId, t.fromState.text, t.toState.text, t.by', t.reason, t.requestedBy,
    t.requestId, t.serverVersion, previousHash]

def Transition.texts (t : Transition) : List Str :=
  [t.memoryId, t.by', t.reason, t.requestedBy, t.requestId, t.serverVersion]

/-- `record_verification`. The hash is that of the UTF-8 form of the text. -/
def Db.recordVerification (db : Db F) (t : Transition) (previousHash : Str) (now : F) :
    Except PyError (Db F) := do
  match encode (t.record previousHash) with
  | none => .error .unicodeEncodeError
  | some record =>
    let row : VerificationRow F :=
      ⟨t.memoryId, t.fromState, t.toState, t.by', t.requestedBy, t.reason, now, t.requestId,
        t.serverVersion, previousHash, hex (P.sha256 record)⟩
    return { db with history := db.history ++ [row] }

/-- The rows of a memory, in the order of insertion. -/
def Db.trail (db : Db F) (memoryId : Str) : List (VerificationRow F) :=
  db.history.filter fun row => row.memoryId = memoryId

/-- A value of a row of a query. -/
inductive Cell (F : Type) where
  | text (s : Str)
  | real (x : F)

def VerificationRow.column (row : VerificationRow F) : String → Option (Cell F)
  | "memory_id" => some (.text row.memoryId)
  | "from_state" => some (.text row.fromState.text)
  | "to_state" => some (.text row.toState.text)
  | "by" => some (.text row.by')
  | "requested_by" => some (.text row.requestedBy)
  | "reason" => some (.text row.reason)
  | "at" => some (.real row.at')
  | "request_id" => some (.text row.requestId)
  | "server_version" => some (.text row.serverVersion)
  | "previous_hash" => some (.text row.previousHash)
  | "record_hash" => some (.text row.recordHash)
  | _ => none

/-- A row as a dict with the selected columns. -/
def VerificationRow.select (columns : List String) (row : VerificationRow F) :
    List (String × Cell F) :=
  columns.filterMap fun name => (row.column name).map fun cell => (name, cell)

/-- `row.get(name, default)` -/
def textOr (row : List (String × Cell F)) (name : String) (default : Str) : Str :=
  match row.lookup name with
  | some (.text s) => s
  | _ => default

def historyColumns : List String := ["from_state", "to_state", "by", "reason", "at"]

/-- `verification_history`: the rows of a memory by time. -/
def Db.verificationHistory (db : Db F) (memoryId : Str) : List (List (String × Cell F)) :=
  ((db.trail memoryId).mergeSort fun a b => !P.float.lt b.at' a.at').map
    (VerificationRow.select historyColumns)

/-- `ORDER BY importance DESC, updated_at DESC` -/
def ranksBefore (a b : MemoryItem F) : Bool :=
  P.float.lt b.importance a.importance ||
    (!P.float.lt a.importance b.importance && !P.float.lt a.updatedAt b.updatedAt)

def Db.listActive (db : Db F) (tenant : Str) (limit : Nat) : List (MemoryItem F) :=
  ((db.items.filter fun item => item.tenant = tenant ∧ item.archived = false).mergeSort
    (ranksBefore P)).take limit

/-! ## The calls -/

/-- The arguments of `store_memory`. -/
structure StoreCall (F : Type) where
  content : Str
  type : MemoryType
  tags : List Str
  importance : F
  sourceAgent : Str
  source : Str
  taskId : Str
  tenant : Str
  project : Str
  tech : Str
  decayFactor : F
  relationships : List Str
  memoryId : Option Str

/-- `memory_id or uuid.uuid4().hex[:16]` -/
def StoreCall.idOr (call : StoreCall F) (uuid : Str) : Str :=
  match call.memoryId with
  | none | some [] => uuid
  | some (c :: s) => c :: s

def StoreCall.item (call : StoreCall F) (uuid : Str) (now : F) : MemoryItem F where
  memoryId := call.idOr uuid
  type := call.type
  content := strip (P.redact call.content)
  tags := call.tags
  importance := P.float.clamp call.importance
  sourceAgent := call.sourceAgent
  source := call.source
  taskId := call.taskId
  tenant := call.tenant
  project := call.project
  tech := call.tech
  verificationState := .unverified
  decayFactor := call.decayFactor
  relationships := call.relationships
  createdAt := now
  updatedAt := now
  lastAccessedAt := now
  accessCount := 0
  archived := false

/-- What a call returns, and the database it leaves. -/
abbrev Outcome (F α : Type) := Except PyError α × Db F

def storeMemory (db : Db F) (call : StoreCall F) (uuid : Str) (now : F) :
    Outcome F (MemoryItem F) :=
  let item := call.item P uuid now
  let written := do
    raiseIf (strip call.content = []) (.valueError (lit "content is required"))
    db.upsert item
  match written with
  | .error e => (.error e, db)
  | .ok db' => (.ok item, db')

/-- The two writes of a transition: the memory, then the row of its history. -/
def Db.transition (db : Db F) (item : MemoryItem F) (t : Transition) (previousHash : Str)
    (now : F) : Outcome F (MemoryItem F) :=
  match db.upsert item with
  | .error e => (.error e, db)
  | .ok db' =>
    match db'.recordVerification P t previousHash now with
    | .error e => (.error e, db')
    | .ok db'' => (.ok item, db'')

/-- `store.get`, where a memory that is not there is an error. -/
def Db.get (db : Db F) (memoryId : Str) : Except PyError (MemoryItem F) := do
  bindTexts [memoryId]
  match db.find memoryId with
  | none => .error (.raised (lit "KeyError") (lit "unknown memory: " ++ memoryId))
  | some item => return item

/-- The arguments of `verify_memory`. -/
structure VerifyCall where
  memoryId : Str
  toState : VerificationState
  by' : Str
  requestedBy : Str
  reason : Str
  resolution : Str
  requestId : Str
  serverVersion : Str

/-- The checks of `verify_memory`. What is returned is the reason that goes on record. -/
def VerifyCall.check (call : VerifyCall) (item : MemoryItem F) : Except PyError Str := do
  raiseIf (item.archived = true)
    (.valueError (lit "memory " ++ call.memoryId ++ lit " is archived (DEPRECATED is terminal)"))
  raiseIf (strip call.by' = [] ∨ call.by' = lit "unknown")
    (.valueError (lit "actor identity required"))
  raiseIf (call.toState ∉ transitions item.verificationState)
    (.valueError (lit "illegal verification transition: " ++ item.verificationState.text ++
      lit " -> " ++ call.toState.text))
  if item.verificationState = .contradicted ∧ call.toState = .verified then
    raiseIf (strip call.resolution = [])
      (.valueError (lit "resolution evidence required for CONTRADICTED -> VERIFIED"))
    return lit "[RESOLVED] " ++ (strip call.resolution).take 500
  else
    return call.reason

def VerifyCall.transition (call : VerifyCall) (item : MemoryItem F) (reason : Str) : Transition :=
  ⟨call.memoryId, item.verificationState, call.toState, strip call.by',
    strip call.requestedBy, reason, call.requestId, call.serverVersion⟩

/-- The hash the new row is to link to: what the last row of the query has under `record_hash`. -/
def Db.previousHash (db : Db F) (memoryId : Str) : Str :=
  match (db.verificationHistory P memoryId).getLast? with
  | none => []
  | some row => textOr row "record_hash" []

/-- The memory that is verified, and the reason. -/
def VerifyCall.checked (call : VerifyCall) (db : Db F) : Except PyError (MemoryItem F × Str) := do
  let item ← db.get call.memoryId
  let reason ← call.check item
  return (item, reason)

/-- What `verify_memory` writes. -/
def MemoryItem.moved (item : MemoryItem F) (toState : VerificationState) (now : F) : MemoryItem F :=
  { item with verificationState := toState, updatedAt := now }

def verifyMemory (db : Db F) (call : VerifyCall) (now : F) : Outcome F (MemoryItem F) :=
  match call.checked db with
  | .error e => (.error e, db)
  | .ok (item, reason) =>
    db.transition P (item.moved call.toState now) (call.transition item reason)
      (db.previousHash P call.memoryId) now

def forgetTransition (item : MemoryItem F) (by' reason : Str) : Transition :=
  { memoryId := item.memoryId
    fromState := item.verificationState
    toState := .deprecated
    by' := by'
    reason := reason }

/-- What `forget_memory` writes. -/
def MemoryItem.forgotten (item : MemoryItem F) (now : F) : MemoryItem F :=
  { item with archived := true, verificationState := .deprecated, updatedAt := now }

def forgetMemory (db : Db F) (memoryId by' reason : Str) (now : F) : Outcome F (MemoryItem F) :=
  match db.get memoryId with
  | .error e => (.error e, db)
  | .ok item =>
    if item.archived then (.ok item, db)
    else db.transition P (item.forgotten now) (forgetTransition item by' reason) [] now

/-! ## Consolidation -/

/-- `_duplicate`: a shared tag, or half of the words. -/
def duplicate (a b : MemoryItem F) : Bool :=
  let aWords := words (P.lower a.content)
  let bWords := words (P.lower b.content)
  let common := (aWords.eraseDups.filter fun w => w ∈ bWords).length
  (a.tags.any fun t => t ∈ b.tags) ||
    (aWords ≠ [] ∧ bWords ≠ [] ∧ (aWords ++ bWords).eraseDups.length ≤ 2 * common)

/-- The survivor of a merge. `list(dict.fromkeys(...))` keeps the first of equal elements. -/
def MemoryItem.absorb (survivor other : MemoryItem F) (now : F) : MemoryItem F :=
  { survivor with
    tags := (survivor.tags ++ other.tags).eraseDups
    relationships := (survivor.relationships ++ [other.memoryId]).eraseDups
    content := survivor.content ++ lit "\n\n" ++ other.content
    importance := P.float.max survivor.importance other.importance
    updatedAt := now }

/-- What becomes of a group when one of its memories takes in its duplicates. -/
structure Absorbed (F : Type) where
  survivor : MemoryItem F
  consumed : List (MemoryItem F)
  rest : List (MemoryItem F)

/-- The inner loop, over the memories behind the survivor that are not consumed yet. -/
def absorbAll (now : F) (survivor : MemoryItem F) : List (MemoryItem F) → Absorbed F
  | [] => ⟨survivor, [], []⟩
  | other :: others =>
    if duplicate P survivor other then
      let r := absorbAll now (survivor.absorb P other now) others
      { r with consumed := other :: r.consumed }
    else
      let r := absorbAll now survivor others
      { r with rest := other :: r.rest }

theorem absorbAll_rest_length (now : F) (survivor : MemoryItem F) (others : List (MemoryItem F)) :
    (absorbAll P now survivor others).rest.length ≤ others.length := by
  induction others generalizing survivor with
  | nil => exact Nat.le_refl 0
  | cons other others ih =>
    unfold absorbAll
    split
    · exact Nat.le_succ_of_le (ih _)
    · exact Nat.succ_le_succ (ih _)

/-- A survivor, and what it has taken in. -/
structure Merge (F : Type) where
  survivor : MemoryItem F
  consumed : List (MemoryItem F)

/-- The outer loop. -/
def mergeAll (now : F) : List (MemoryItem F) → List (Merge F)
  | [] => []
  | item :: items =>
    let r := absorbAll P now item items
    ⟨r.survivor, r.consumed⟩ :: mergeAll now r.rest
  termination_by items => items.length
  decreasing_by exact Nat.lt_succ_of_le (absorbAll_rest_length P now item items)

def MemoryItem.groupKey (item : MemoryItem F) : Str × MemoryType := (item.project, item.type)

/-- The groups, in the order in which their keys come up. -/
def groupsOf (items : List (MemoryItem F)) : List (List (MemoryItem F)) :=
  (items.map MemoryItem.groupKey).eraseDups.map fun key => items.filter fun item =>
    item.groupKey = key

/-- The merges of a group, the highest importance first. A group of one is left alone. -/
def mergesOf (now : F) (group : List (MemoryItem F)) : List (Merge F) :=
  if group.length < 2 then []
  else mergeAll P now (group.mergeSort fun a b => !P.float.lt a.importance b.importance)

/-- A loop of calls, up to the first one that raises. -/
def each {α : Type} (f : Db F → α → Outcome F Unit) : Db F → List α → Outcome F Unit
  | db, [] => (.ok (), db)
  | db, a :: as =>
    match f db a with
    | (.error e, db') => (.error e, db')
    | (.ok (), db') => each f db' as

/-- A call after another one. -/
def Outcome.andThen {α β : Type} (out : Outcome F α) (f : Db F → Outcome F β) : Outcome F β :=
  match out with
  | (.error e, db) => (.error e, db)
  | (.ok _, db) => f db

/-- `self.forget_memory(other.memory_id, ...)` of a merge -/
def forgetConsumed (by' : Str) (now : F) (db : Db F) (merged : Str × MemoryItem F) :
    Outcome F Unit :=
  (forgetMemory P db merged.2.memoryId by' (lit "consolidated into " ++ merged.1) now).andThen
    fun db => (.ok (), db)

def upsertSurvivor (db : Db F) (item : MemoryItem F) : Outcome F Unit :=
  match db.upsert item with
  | .error e => (.error e, db)
  | .ok db' => (.ok (), db')

/-- The memories merged away, each with the id of its survivor. -/
def Merge.pairs (m : Merge F) : List (Str × MemoryItem F) :=
  m.consumed.map fun other => (m.survivor.memoryId, other)

def consolidateGroup (by' : Str) (now : F) (db : Db F) (group : List (MemoryItem F)) :
    Outcome F Unit :=
  let merges := mergesOf P now group
  (each (forgetConsumed P by' now) db (merges.flatMap Merge.pairs)).andThen fun db =>
    each upsertSurvivor db (merges.map Merge.survivor)

/-- `round(item.importance * factor, 4)` -/
def decayedImportance (now : F) (item : MemoryItem F) : Except PyError F := do
  let strength ← P.float.pow item.decayFactor (P.float.periods now item.lastAccessedAt)
  return P.float.round4
    (P.float.mul item.importance (P.float.max (P.float.literal (3 / 10)) strength))

def decay (now : F) (db : Db F) (item : MemoryItem F) : Outcome F Unit :=
  match decayedImportance P now item with
  | .error e => (.error e, db)
  | .ok importance =>
    if P.float.lt importance item.importance then
      upsertSurvivor db { item with importance := importance, updatedAt := now }
    else (.ok (), db)

structure Report where
  tenant : Str
  merged : Nat
  deprecations : List Str
  decayed : Nat
  kept : Nat

/-- The second half of `consolidate`: the decay, and the report. -/
def decayPass (tenant : Str) (now : F) (groups : List (List (MemoryItem F))) (db : Db F) :
    Outcome F Report :=
  let merged := (groups.flatMap (mergesOf P now)).flatMap Merge.consumed
  let survivors := groups.flatMap fun group =>
    if group.length < 2 then group else (mergesOf P now group).map Merge.survivor
  let items := db.listActive P tenant 1000
  let decayed := items.filter fun item =>
    match decayedImportance P now item with
    | .error _ => false
    | .ok importance => P.float.lt importance item.importance
  let report : Report := ⟨tenant, merged.length, merged.map MemoryItem.memoryId, decayed.length,
    ((survivors ++ items).map MemoryItem.memoryId).eraseDups.length⟩
  (each (decay P now) db items).andThen fun db => (.ok report, db)

def consolidate (db : Db F) (tenant by' : Str) (now : F) : Outcome F Report :=
  match bindTexts [tenant] with
  | .error e => (.error e, db)
  | .ok () =>
    let groups := groupsOf (db.listActive P tenant 1000)
    (each (consolidateGroup P by' now) db groups).andThen (decayPass P tenant now groups)

/-! ## Recall -/

/-- The terms of a query. -/
def queryTerms (query : Str) : List Str := (words (P.lower query)).filter fun t => 2 ≤ t.length

def Db.searchKeywords (db : Db F) (tenant query : Str) (limit : Nat) : List (MemoryItem F) :=
  let hits := db.items.filter fun item =>
    item.tenant = tenant ∧ item.archived = false ∧
      (queryTerms P query).any (P.matchesLike item) = true
  (hits.mergeSort (ranksBefore P)).take limit

/-- The memories that the points of a search name in their payloads. A search that fails has no
points. -/
def Db.searchEmbedding (db : Db F) (points : List Str) : List (MemoryItem F) :=
  (points.filterMap db.find).filter fun item => item.archived = false

/-- `_keyword_score` -/
def keywordScore (item : MemoryItem F) (query : Str) : F :=
  let terms := queryTerms P query
  let content := P.lower item.content
  let tagBlob := P.lower ((lit " ").intercalate item.tags)
  if terms = [] then P.float.literal 0
  else P.float.div
    (P.float.literal
      ((terms.filter fun t => containsText t content || containsText t tagBlob).length : Nat))
    (P.float.literal (terms.length : Nat))

def recencyFactor (decayFactor periods : F) : Except PyError F := do
  if P.float.le decayFactor (P.float.literal 0) then return P.float.literal (1 / 10)
  else
    let strength ← P.float.pow decayFactor periods
    return P.float.max (P.float.literal (1 / 10)) strength

def MemoryItem.liveScore (item : MemoryItem F) (now : F) : Except PyError F := do
  let recency ← recencyFactor P item.decayFactor (P.float.periods now item.lastAccessedAt)
  return P.float.round4 (P.float.mul item.importance recency)

/-- The arguments of `recall_memories`. A filter that is empty does not apply; `points` is what the
search for the embedding finds, nothing where it is switched off. -/
structure RecallCall where
  query : Str
  tenant : Str
  project : Str
  tech : Str
  type : Option MemoryType
  topK : Nat
  points : List Str

structure MemoryRecall (F : Type) where
  memoryId : Str
  content : Str
  type : MemoryType
  tags : List Str
  importance : F
  verificationState : VerificationState
  score : F
  sourceAgent : Str
  project : Str
  tech : Str

/-- `candidates.setdefault(item.memory_id, item)` -/
def setDefault (candidates : List (MemoryItem F)) (item : MemoryItem F) : List (MemoryItem F) :=
  if candidates.any fun c => c.memoryId = item.memoryId then candidates else candidates ++ [item]

def RecallCall.candidates (call : RecallCall) (db : Db F) : List (MemoryItem F) :=
  let found :=
    (db.searchEmbedding call.points).foldl setDefault
    (db.searchKeywords P call.tenant call.query 50)
  found.filter fun item =>
    (call.project = [] ∨ item.project = call.project) ∧ (call.tech = [] ∨ item.tech = call.tech) ∧
      (call.type = none ∨ call.type = some item.type)

def RecallCall.score (call : RecallCall) (db : Db F) (item : MemoryItem F) (now : F) :
    Except PyError (F × MemoryItem F) := do
  let live ← item.liveScore P now
  let semantic := (db.searchEmbedding call.points).any fun hit => hit.memoryId = item.memoryId
  let boost := P.float.literal (if semantic then 3 / 2 else 1)
  return (P.float.round4 (P.float.mul (P.float.mul (keywordScore P item call.query) live) boost),
    item)

def MemoryItem.recall (item : MemoryItem F) (score : F) : MemoryRecall F :=
  ⟨item.memoryId, item.content, item.type, item.tags, item.importance,
    item.verificationState, score, item.sourceAgent, item.project, item.tech⟩

def MemoryItem.touch (now : F) (memoryId : Str) (item : MemoryItem F) : MemoryItem F :=
  if item.memoryId = memoryId
    then { item with lastAccessedAt := now, accessCount := item.accessCount + 1 } else item

/-- `touch` -/
def Db.touch (db : Db F) (now : F) (memoryId : Str) : Db F :=
  { db with items := db.items.map (MemoryItem.touch now memoryId) }

/-- The memories that are returned, each with its score. -/
def RecallCall.ranked (call : RecallCall) (db : Db F) (now : F) :
    Except PyError (List (F × MemoryItem F)) := do
  let terms := queryTerms P call.query
  bindTexts ((if terms = [] then [] else call.tenant :: terms) ++ call.points)
  let scored ← (call.candidates P db).mapM fun item => call.score P db item now
  return (scored.mergeSort fun a b => !P.float.lt a.1 b.1).take call.topK

def recallMemories (db : Db F) (call : RecallCall) (now : F) : Outcome F (List (MemoryRecall F)) :=
  match call.ranked P db now with
  | .error e => (.error e, db)
  | .ok top =>
    (.ok (top.map fun hit => hit.2.recall hit.1), (top.map fun hit => hit.2.memoryId).foldl
      (Db.touch · now) db)

/-! ## The system -/

/-- A call of the fabric, with the id it would generate and the time. -/
inductive Call (F : Type) where
  | storeMemory (call : StoreCall F) (uuid : Str) (now : F)
  | verifyMemory (call : VerifyCall) (now : F)
  | forgetMemory (memoryId by' reason : Str) (now : F)
  | consolidate (tenant by' : Str) (now : F)
  | recallMemories (call : RecallCall) (now : F)

/-- The database after a call, whether it has returned or raised. -/
def Call.run (db : Db F) : Call F → Db F
  | .storeMemory call uuid now => (Memory.storeMemory P db call uuid now).2
  | .verifyMemory call now => (Memory.verifyMemory P db call now).2
  | .forgetMemory memoryId by' reason now => (Memory.forgetMemory P db memoryId by' reason now).2
  | .consolidate tenant by' now => (Memory.consolidate P db tenant by' now).2
  | .recallMemories call now => (Memory.recallMemories P db call now).2

/-! ## What a call sets out to record -/

def VerifyCall.pending (call : VerifyCall) (db : Db F) : List Transition :=
  match call.checked db with
  | .error _ => []
  | .ok (item, reason) => [call.transition item reason]

def forgetPending (db : Db F) (memoryId by' reason : Str) : List Transition :=
  match db.get memoryId with
  | .error _ => []
  | .ok item => if item.archived then [] else [forgetTransition item by' reason]

def consolidatePending (db : Db F) (tenant by' : Str) (now : F) : List Transition :=
  let merges := (groupsOf (db.listActive P tenant 1000)).flatMap (mergesOf P now)
  (merges.flatMap Merge.pairs).map fun merged => forgetTransition merged.2 by'
    (lit "consolidated into " ++ merged.1)

/-- The transitions a call sets out to record. -/
def Call.pending (db : Db F) : Call F → List Transition
  | .storeMemory .. | .recallMemories .. => []
  | .verifyMemory call _ => call.pending db
  | .forgetMemory memoryId by' reason _ => forgetPending db memoryId by' reason
  | .consolidate tenant by' now => consolidatePending P db tenant by' now

/-- One call. Every call comes to an end. -/
def step (db : Db F) (call : Call F) : Option (Db F) := some (call.run P db)

end Memory
