import Msb.Infra.Hex
import Msb.Infra.HashChain
import Msb.Infra.PyReload

/-!
# The audit chain

`audit_chain.py`: the table `audit_records`, the hash of a record, `append` and `verify_chain`.
The hash of a record covers its fields and the hash of the record before it. It is computed from
the payload in memory when the record is written, and from the stored JSON text when the chain
is verified.

* `computeHash_inj` — where SHA-256 has no collision, the hash commits to every field
* `verifyChain_valid_iff` — a valid chain is linked, and every hash is the recomputed one
-/

namespace Ledger

open Py HashChain

/-! ## The platform -/

/-- What the ledger takes from the language runtime: how `sorted` orders the items of a dict, and
SHA-256. -/
structure Platform where
  keySort : KeySort
  sha256 : Bytes → Bytes

/-- `hashlib.sha256(b).hexdigest()` -/
def Platform.hexdigest (P : Platform) (b : Bytes) : Str := hex (P.sha256 b)

/-- `"0" * 64` -/
def genesisHash : Str := List.replicate 64 48

/-- SHA-256 has no collision, and no text hashes to the genesis value. -/
structure CollisionFree (P : Platform) : Prop where
  injective : Function.Injective P.sha256
  ne_genesis : ∀ b, P.hexdigest b ≠ genesisHash

theorem hexdigest_inj {P : Platform} (hP : Function.Injective P.sha256) {a b : Bytes}
    (hab : P.hexdigest a = P.hexdigest b) : a = b :=
  hP (hex_injective hab)

/-- A platform that keeps the whole preimage as its digest. -/
def Platform.tagged : Platform := ⟨KeySort.insertion, fun b => 1 :: b⟩

theorem collisionFree_tagged : CollisionFree Platform.tagged where
  injective _ _ h := (List.cons.inj h).2
  ne_genesis b h := by
    have hhead := congrArg (fun l => l[1]?) h
    simp [Platform.hexdigest, Platform.tagged, hex, genesisHash, hexChar] at hhead

variable (P : Platform)

/-! ## The hash of a record -/

/-- `json.dumps(..., ensure_ascii=False)` -/
def plainStyle : JsonStyle := ⟨[32], [32], false, by simp [isWs], by simp [isWs]⟩

/-- The dict that `_compute_hash` writes. -/
def recordDict (prevHash component eventType : Str) (payload : PyVal) (timestamp : Str) : PyVal :=
  .dict [(.str (lit "prev_hash"), .str prevHash), (.str (lit "component"), .str component),
    (.str (lit "event_type"), .str eventType), (.str (lit "payload"), payload),
    (.str (lit "timestamp"), .str timestamp)]

/-- `_compute_hash` -/
def computeHash (prevHash component eventType : Str) (payload : PyVal) (timestamp : Str) :
    Except PyError Str := do
  let canonical ← dumps P.keySort true plainStyle
    (recordDict prevHash component eventType payload timestamp)
  let b ← encodeE canonical
  .ok (P.hexdigest b)

/-! ## Non-finite floats -/

/-- `f"{k}"` for a key. -/
def keyStr : PyKey → Str
  | .none => lit "None"
  | .bool true => lit "True"
  | .bool false => lit "False"
  | .int i => (intLit i).text
  | .float (.finite x) => (reprLit x).text
  | .float (.inf true) => lit "-inf"
  | .float (.inf false) => lit "inf"
  | .float .nan => lit "nan"
  | .str s => s

def nonFiniteMessage (path : Str) (f : PyFloat) : Str :=
  lit "audit payload " ++ path ++ lit " is a non-finite float (" ++ keyStr (.float f) ++
    lit "); it cannot be represented in canonical JSON"

mutual

/-- `_reject_non_finite`. It looks at the values only: a non-finite key passes. -/
def rejectNonFinite (path : Str) : PyVal → Except PyError Unit
  | .dict items => rejectItems path items
  | .list xs => rejectElems path 0 xs
  | .tuple xs => rejectElems path 0 xs
  | .float f => if f.isFinite then .ok () else .error (.valueError (nonFiniteMessage path f))
  | _ => .ok ()

def rejectItems (path : Str) : List (PyKey × PyVal) → Except PyError Unit
  | [] => .ok ()
  | (k, v) :: items => do
    rejectNonFinite (path ++ lit "." ++ keyStr k) v
    rejectItems path items

def rejectElems (path : Str) (i : Nat) : List PyVal → Except PyError Unit
  | [] => .ok ()
  | v :: xs => do
    rejectNonFinite (path ++ lit "[" ++ (intLit i).text ++ lit "]") v
    rejectElems path (i + 1) xs

end

/-! ## The table -/

/-- A row of `audit_records`. -/
structure AuditRow where
  seq : Int
  component : Str
  eventType : Str
  payload : Str
  timestamp : Str
  prevHash : Str
  recordHash : Str
  deriving DecidableEq

/-- A row as `append` and `get_chain` return it, with the payload as a value. -/
structure AuditRecord where
  seq : Int
  component : Str
  eventType : Str
  payload : PyVal
  timestamp : Str
  prevHash : Str
  recordHash : Str

inductive MigrationState where
  | v1Active
  | migrating
  | v2Active
  | migrationBlocked
  deriving DecidableEq

/-- The text of `migration_state` in `chain_meta`. -/
def MigrationState.text : MigrationState → Str
  | .v1Active => lit "V1_ACTIVE"
  | .migrating => lit "MIGRATING"
  | .v2Active => lit "V2_ACTIVE"
  | .migrationBlocked => lit "MIGRATION_BLOCKED"

/-- The keys of `chain_meta`. A key that was never written is `none`. -/
structure ChainMeta where
  migrationState : Option MigrationState := none
  migrationId : Option Str := none
  migrationStartedAt : Option Str := none
  migrationCompletedAt : Option Str := none
  migrationAbortedAt : Option Str := none
  migrationBlockedReason : Option Str := none
  migrationBlockedAt : Option Str := none
  state : Option Str := none
  brokenAtSeq : Option Str := none
  reason : Option Str := none
  quarantinedAt : Option Str := none
  repairedAt : Option Str := none
  deriving DecidableEq

/-- `_get_meta("migration_state", "V1_ACTIVE")` -/
def ChainMeta.migration (m : ChainMeta) : MigrationState := m.migrationState.getD .v1Active

/-- The audit database. `seq` is the primary key, so the rows are kept in its order; `sequence`
is the counter behind `AUTOINCREMENT`, the largest `seq` ever given out. -/
structure AuditDb where
  rows : List AuditRow
  sequence : Int
  chainMeta : ChainMeta
  sorted : rows.Pairwise fun a b => a.seq < b.seq

/-- A new database. -/
def AuditDb.init : AuditDb := ⟨[], 0, {}, List.Pairwise.nil⟩

/-- `_last_hash` -/
def AuditDb.lastHash (db : AuditDb) : Str :=
  match db.rows.getLast? with
  | some r => r.recordHash
  | none => genesisHash

/-- The `seq` of the last row, 0 without rows. -/
def lastSeq (rows : List AuditRow) : Int :=
  match rows.getLast? with
  | some r => r.seq
  | none => 0

def AuditDb.lastSeq (db : AuditDb) : Int := Ledger.lastSeq db.rows

/-- The `seq` that `AUTOINCREMENT` gives to the next row. -/
def AuditDb.nextSeq (db : AuditDb) : Int := max db.sequence db.lastSeq + 1

theorem AuditDb.seq_le_lastSeq (db : AuditDb) : ∀ r ∈ db.rows, r.seq ≤ db.lastSeq := by
  intro r hr
  have hsorted := db.sorted
  rcases List.eq_nil_or_concat db.rows with h | ⟨rs, last, h⟩
  · rw [h] at hr
    exact absurd hr List.not_mem_nil
  · rw [List.concat_eq_append] at h
    have hlast : db.lastSeq = last.seq := by simp [AuditDb.lastSeq, Ledger.lastSeq, h]
    rw [h] at hr hsorted
    rw [hlast]
    rcases List.mem_append.mp hr with hr | hr
    · exact le_of_lt ((List.pairwise_append.mp hsorted).2.2 r hr last (List.mem_singleton_self _))
    · rw [List.mem_singleton.mp hr]

theorem AuditDb.seq_lt_nextSeq (db : AuditDb) : ∀ r ∈ db.rows, r.seq < db.nextSeq := by
  intro r hr
  have hle := db.seq_le_lastSeq r hr
  unfold AuditDb.nextSeq
  omega

/-- A row inserted under the next `seq`. -/
def AuditDb.push (db : AuditDb) (component eventType payload timestamp prevHash recordHash : Str) :
    AuditDb where
  rows := db.rows ++ [⟨db.nextSeq, component, eventType, payload, timestamp, prevHash, recordHash⟩]
  sequence := db.nextSeq
  chainMeta := db.chainMeta
  sorted := List.pairwise_append.mpr ⟨db.sorted, List.pairwise_singleton _ _, by
    intro a ha b hb
    rw [List.mem_singleton.mp hb]
    exact db.seq_lt_nextSeq a ha⟩

/-! ## `append` -/

/-- The arguments of an `append` call. -/
structure AppendCall where
  component : Str
  eventType : Str
  payload : PyVal

/-- What is found at the place of the anchor file, next to the database. -/
inductive AnchorProbe where
  | missing
  | unreadable
  | text (t : Str)

/-- What `append` reads besides the database: the flags of the chain object, the environment, the
anchor file, whether the storage contract allows a write, and whether the store fails. -/
structure AppendEnv where
  anchored : Bool
  allowKeyless : Bool
  /-- `os.getenv("MSB_ALLOW_KEYLESS_APPENDS") == "1"` -/
  allowKeylessEnv : Bool
  anchorFile : AnchorProbe
  anchorPath : Str
  dbPath : Str
  /-- `Path(p).resolve()`; `none` where it raises. -/
  resolve : Str → Option Str
  defaultChain : Bool
  keyConfigured : Bool
  /-- `StorageContract.assert_write_allowed()` -/
  writeAllowed : Except PyError Unit
  /-- The text of an `OperationalError` or `OSError` raised by the write. -/
  failure : Option Str

/-- `d.get(key)`. Anything but a dict has no `get`. -/
def pyGet (v : PyVal) (key : Str) : Except PyError (Option PyVal) :=
  match v with
  | .dict items => .ok ((items.find? fun p => p.1 = .str key).map Prod.snd)
  | _ => .error .attributeError

/-- `_anchor_covers_chain` -/
def anchorCoversChain (env : AppendEnv) : Except PyError Bool :=
  match env.anchorFile with
  | .missing => .ok false
  | .unreadable => .ok true
  | .text t =>
    match loads t with
    | .error _ => .ok true
    | .ok data => do
      let snapshot := (← pyGet data (lit "snapshot")).getD (.dict [])
      match ← pyGet snapshot (lit "db_path") with
      | some (.str recorded) =>
        match env.resolve recorded, env.resolve env.dbPath with
        | some a, some b => .ok (a = b)
        | _, _ => .ok true
      | _ => .ok true

def keylessError (message : Str) : PyError := .raised (lit "AuditChainKeylessAppendError") message

def optOut : Str :=
  lit "Use anchored_chain_from_env() so the append re-anchors, or set " ++
  lit "MSB_ALLOW_KEYLESS_APPENDS=1 to opt out explicitly (dev/test only)."

/-- `_refuse_keyless_append` -/
def refuseKeylessAppend (env : AppendEnv) : Except PyError Unit :=
  if env.anchored || env.allowKeyless then .ok ()
  else if env.allowKeylessEnv then .ok ()
  else do
    if ← anchorCoversChain env then
      .error (keylessError
        (lit "keyless append refused: this chain carries a signed anchor file (" ++
        env.anchorPath ++
        lit ") covering this DB — bare AuditChain() appends would land unanchored. "
        ++ optOut))
    else if env.defaultChain && env.keyConfigured then
      .error (keylessError
        (lit "keyless append refused: MSB_CHAIN_ANCHOR_KEY is configured and this "
        ++ lit "bare AuditChain() targets the production chain (data/uac/audit_chain.db). " ++
        optOut))
    else .ok ()

/-- `_refuse_migration_append` -/
def refuseMigrationAppend (db : AuditDb) : Except PyError Unit :=
  if db.chainMeta.migration = .v1Active then .ok ()
  else .error (.runtimeError
    (lit "v1 audit writes are blocked while migration_state=" ++ db.chainMeta.migration.text))

/-- Everything `append` checks before it opens the write transaction. -/
def preflight (env : AppendEnv) (db : AuditDb) (call : AppendCall) : Except PyError Unit := do
  refuseKeylessAppend env
  refuseMigrationAppend db
  env.writeAllowed
  rejectNonFinite (lit "payload") call.payload

/-- The largest rowid. -/
def maxRowid : Int := 2 ^ 63 - 1

/-- The write transaction of `append`: read the last hash, hash the record, insert the row. -/
def insertRow (db : AuditDb) (call : AppendCall) (timestamp : Str) :
    Except PyError (AuditRecord × AuditDb) := do
  let prevHash := db.lastHash
  let recordHash ← computeHash P prevHash call.component call.eventType call.payload timestamp
  let payload ← dumps P.keySort false plainStyle call.payload
  if maxRowid < db.nextSeq then .error (.osError (lit "database or disk is full"))
  else .ok (⟨db.nextSeq, call.component, call.eventType, call.payload, timestamp, prevHash,
    recordHash⟩, db.push call.component call.eventType payload timestamp prevHash recordHash)

/-- The transaction, where the store may fail: then it is rolled back. -/
def writeRow (env : AppendEnv) (db : AuditDb) (call : AppendCall) (timestamp : Str) :
    Except PyError (AuditRecord × AuditDb) :=
  match env.failure with
  | some message => .error (.osError message)
  | none => insertRow P db call timestamp

def asciiLower (s : Str) : Str :=
  s.map fun c => if 65 ≤ c.val ∧ c.val ≤ 90 then Fin.ofNat _ (c.val + 32) else c

/-- A storage error that latches the storage contract: the message speaks of a full disk. -/
def latches : PyError → Option Str
  | .osError message =>
    if [lit "full", lit "disk", lit "no space"].any fun token => token <:+: asciiLower message
    then some message else none
  | _ => none

/-- What `append` did: the result, the database, and the reason given to `mark_blocked`. -/
structure AppendOutcome where
  result : Except PyError AuditRecord
  db : AuditDb
  blocked : Option Str

/-- `AuditChain.append` -/
def append (env : AppendEnv) (db : AuditDb) (call : AppendCall) (timestamp : Str) : AppendOutcome :=
  match preflight env db call >>= fun _ => writeRow P env db call timestamp with
  | .ok (record, db') => ⟨.ok record, db', none⟩
  | .error e =>
    match latches e with
    | some message => ⟨.error (.raised (lit "AuditWriteBlocked")
        (lit "audit write blocked after storage failure; refusing to report success")), db,
        some message⟩
    | none => ⟨.error e, db, none⟩

/-! ## `verify_chain` -/

/-- The verdict of `verify_chain`. -/
inductive ChainVerdict where
  | valid (recordCount : Nat)
  | broken (seq : Int) (reason : Str)
  | unreadable (reason : Str)
  deriving DecidableEq

def ChainVerdict.isValid : ChainVerdict → Bool
  | .valid _ => true
  | _ => false

def prevMismatch : Str := lit "prev_hash does not match preceding record"

def hashMismatch : Str := lit "stored hash does not match recomputed content hash"

/-- The hash of a row as `verify_chain` recomputes it. -/
def recomputed (row : AuditRow) : Except PyError Str := do
  let payload ← loads row.payload
  computeHash P row.prevHash row.component row.eventType payload row.timestamp

/-- The loop of `verify_chain`: `none` when no row breaks the chain. -/
def verifyRows (expectedPrev : Str) : List AuditRow → Except PyError (Option ChainVerdict)
  | [] => .ok none
  | row :: rows => do
    let h ← recomputed P row
    if row.prevHash ≠ expectedPrev then .ok (some (.broken row.seq prevMismatch))
    else if h ≠ row.recordHash then .ok (some (.broken row.seq hashMismatch))
    else verifyRows row.recordHash rows

/-- `verify_chain`, on what the query for all rows returned or raised. -/
def verifyChain (read : Except Str (List AuditRow)) : Except PyError ChainVerdict :=
  match read with
  | .error message => .ok (.unreadable (lit "audit store unreadable: " ++ message))
  | .ok rows =>
    match verifyRows P genesisHash rows with
    | .error e => .error e
    | .ok (some verdict) => .ok verdict
    | .ok none => .ok (.valid rows.length)

/-! ## Reading the records -/

/-- A row with its payload parsed. -/
def AuditRow.toRecord (row : AuditRow) : Except PyError AuditRecord := do
  let payload ← loads row.payload
  .ok ⟨row.seq, row.component, row.eventType, payload, row.timestamp, row.prevHash, row.recordHash⟩

/-- `get_chain()` -/
def getChain (rows : List AuditRow) : Except PyError (List AuditRecord) :=
  rows.mapM AuditRow.toRecord

/-! ## What the hash covers -/

section

variable {P}

/-- The tree that is written and hashed: the keys of the record in their order. -/
def recordTree (prevHash component eventType : Str) (payload : Json) (timestamp : Str) : Json :=
  .obj [(lit "component", .str component), (lit "event_type", .str eventType),
    (lit "payload", payload), (lit "prev_hash", .str prevHash), (lit "timestamp", .str timestamp)]

theorem toJson_recordDict (S : KeySort) (prev comp ev : Str) (payload : PyVal) (ts : Str) :
    toJson S true (recordDict prev comp ev payload ts)
      = recordTree prev comp ev (toJson S true payload) ts := by
  have hsort : S.sort [(.str (lit "prev_hash"), .str prev), (.str (lit "component"), .str comp),
        (.str (lit "event_type"), .str ev), (.str (lit "payload"), toJson S true payload),
        (.str (lit "timestamp"), .str ts)]
      = [(.str (lit "component"), .str comp), (.str (lit "event_type"), .str ev),
        (.str (lit "payload"), toJson S true payload), (.str (lit "prev_hash"), .str prev),
        (.str (lit "timestamp"), .str ts)] := by
    refine sort_eq_of_perm S ?_ ?_ ?_
    · simp [PyKey.isStr]
    · change List.Perm (_ :: ([_, _, _] ++ [_])) ([_, _, _] ++ _ :: [_])
      exact List.perm_middle.symm
    · simp only [List.pairwise_cons, List.forall_mem_cons, keyText]
      refine ⟨⟨?_, ?_, ?_, ?_, ?_⟩, ⟨?_, ?_, ?_, ?_⟩, ⟨?_, ?_, ?_⟩, ⟨?_, ?_⟩, ?_, ?_⟩
      all_goals decide
  simp only [recordDict, toJson, toJsonItems_eq, List.map_cons, List.map_nil, if_true, hsort]
  rfl

theorem sortable_recordDict (prev comp ev : Str) (payload : PyVal) (ts : Str) :
    sortable (recordDict prev comp ev payload ts) = sortable payload := by
  simp [recordDict, sortable, comparable, PyKey.isStr]

variable {prev comp ev ts h : Str} {rows : List AuditRow}

/-- The hash exists when the payload can be sorted and the text encoded. -/
theorem computeHash_eq_ok {payload : PyVal} :
    computeHash P prev comp ev payload ts = .ok h ↔ sortable payload = true ∧
      ∃ b, encode (render plainStyle (recordTree prev comp ev (toJson P.keySort true payload) ts))
        = some b ∧ h = P.hexdigest b := by
  unfold computeHash dumps
  rw [sortable_recordDict, toJson_recordDict]
  cases sortable payload with
  | false => simp [bind, Except.bind]
  | true =>
    simp only [Bool.not_true, Bool.and_false, Bool.false_eq_true, if_false, bind_eq_ok,
      Except.ok.injEq, exists_eq_left', encodeE_eq_ok, true_and]
    exact exists_congr fun b => and_congr_right fun _ => eq_comm

/-- The hash sees the payload through its sorted tree. -/
theorem computeHash_congr {p q : PyVal} (hsort : sortable p = sortable q)
    (htree : toJson P.keySort true p = toJson P.keySort true q) :
    computeHash P prev comp ev p ts = computeHash P prev comp ev q ts := by
  unfold computeHash dumps
  rw [sortable_recordDict, sortable_recordDict, toJson_recordDict, toJson_recordDict, hsort, htree]

theorem computeHash_ne_genesis (hP : CollisionFree P) {payload : PyVal}
    (hh : computeHash P prev comp ev payload ts = .ok h) : h ≠ genesisHash := by
  obtain ⟨-, b, -, rfl⟩ := computeHash_eq_ok.mp hh
  exact hP.ne_genesis b

/-- **The hash commits to every field**, to the payload as far as its sorted tree. -/
theorem computeHash_inj (hP : Function.Injective P.sha256) {p : PyVal} {prev' comp' ev' : Str}
    {p' : PyVal} {ts' : Str} (hh : computeHash P prev comp ev p ts = .ok h)
    (hh' : computeHash P prev' comp' ev' p' ts' = .ok h) :
    prev = prev' ∧ comp = comp' ∧ ev = ev' ∧
      toJson P.keySort true p = toJson P.keySort true p' ∧ ts = ts' := by
  obtain ⟨-, b, hb, rfl⟩ := computeHash_eq_ok.mp hh
  obtain ⟨-, b', hb', heq⟩ := computeHash_eq_ok.mp hh'
  obtain rfl := hexdigest_inj hP heq
  have htree := render_injective plainStyle rfl (encode_injective hb hb')
  simp only [recordTree, Json.obj.injEq, List.cons.injEq, Prod.mk.injEq, Json.str.injEq, true_and,
    and_true] at htree
  obtain ⟨hcomp, hev, hp, hprev, hts⟩ := htree
  exact ⟨hprev, hcomp, hev, hp, hts⟩

/-! ## What verification accepts -/

theorem recomputed_eq_ok {row : AuditRow} :
    recomputed P row = .ok h ↔ ∃ payload, loads row.payload = .ok payload ∧
      computeHash P row.prevHash row.component row.eventType payload row.timestamp = .ok h := by
  simp only [recomputed, bind_eq_ok]

/-- What `verify_chain` accepts: every row links to the row before it, and its stored hash is the
recomputed one. -/
structure ValidRows (P : Platform) (rows : List AuditRow) : Prop where
  linked : Linked AuditRow.prevHash AuditRow.recordHash genesisHash rows
  hashed : ∀ r ∈ rows, recomputed P r = .ok r.recordHash

theorem verifyRows_eq_none {g : Str} :
    verifyRows P g rows = .ok none ↔ Linked AuditRow.prevHash AuditRow.recordHash g rows ∧
      ∀ r ∈ rows, recomputed P r = .ok r.recordHash := by
  induction rows generalizing g with
  | nil => simp [verifyRows]
  | cons row rows ih =>
    rw [verifyRows, linked_cons, List.forall_mem_cons]
    cases hrec : recomputed P row with
    | error e => simp [bind, Except.bind]
    | ok h =>
      simp only [bind, Except.bind]
      by_cases hprev : row.prevHash = g
      · by_cases hhash : h = row.recordHash
        · simp [hprev, hhash, ih]
        · simp [hprev, hhash]
      · simp [hprev]

/-- `verifyRows` never finds the chain valid itself. -/
theorem verifyRows_isValid {g : Str} {v : ChainVerdict} (h : verifyRows P g rows = .ok (some v)) :
    v.isValid = false := by
  induction rows generalizing g with
  | nil => simp [verifyRows] at h
  | cons row rows ih =>
    rw [verifyRows] at h
    cases hrec : recomputed P row with
    | error e => simp [hrec, bind, Except.bind] at h
    | ok hash =>
      simp only [hrec, bind, Except.bind] at h
      split at h
      · obtain rfl : ChainVerdict.broken row.seq prevMismatch = v := by simpa using h
        rfl
      · split at h
        · obtain rfl : ChainVerdict.broken row.seq hashMismatch = v := by simpa using h
          rfl
        · exact ih h

/-- **A chain is found valid exactly when its rows are.** -/
theorem verifyChain_valid_iff {n : Nat} :
    verifyChain P (.ok rows) = .ok (.valid n) ↔ ValidRows P rows ∧ n = rows.length := by
  have hrows : ValidRows P rows ↔ verifyRows P genesisHash rows = .ok none :=
    ⟨fun h => verifyRows_eq_none.mpr ⟨h.linked, h.hashed⟩, fun h =>
      ⟨(verifyRows_eq_none.mp h).1, (verifyRows_eq_none.mp h).2⟩⟩
  rw [hrows]
  simp only [verifyChain]
  split
  · next e he => simp [he]
  · next v hv =>
    have hne : v ≠ .valid n := by
      rintro rfl
      exact absurd (verifyRows_isValid hv) (by simp [ChainVerdict.isValid])
    simp [hv, hne]
  · next hv => simp [hv, eq_comm]

theorem ValidRows.ne_genesis (hP : CollisionFree P) (h : ValidRows P rows) :
    ∀ r ∈ rows, r.recordHash ≠ genesisHash := by
  intro r hr
  obtain ⟨_, -, hhash⟩ := recomputed_eq_ok.mp (h.hashed r hr)
  exact computeHash_ne_genesis hP hhash

theorem lastHash_eq_tip (db : AuditDb) :
    db.lastHash = tip AuditRow.recordHash genesisHash db.rows := by
  unfold AuditDb.lastHash
  rcases List.eq_nil_or_concat db.rows with h | ⟨rs, r, h⟩
  · simp [h]
  · simp [h]

end

end Ledger
