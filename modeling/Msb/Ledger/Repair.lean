import Msb.Ledger.AppendVerify
import Msb.Ledger.Inclusion
import Msb.Ledger.V2Verify

/-!
# Repair

`AuditChain.repair` rewrites the hashes of a broken chain from the first break on, and appends a row
that says so. After it the chain is read by the verifier of the chain, by the receipts of single
records, and by the exporter of `audit_v1_export.py`. The last two count: a receipt is checked at
`records[seq - 1]`, and the exporter wants the numbers 1, 2, 3 in order. A row that was deleted
leaves a gap that no repair closes.

* `relink_spec` — what the rewrite does to the tail of the table
* `prepare_spec` — the chain verifies, and nothing but hashes has changed
* `repair_law` — what a call leaves, and who can read it: the exporter exactly where no number was
  missing
-/

namespace Ledger

open Py HashChain

variable (P : Platform)

/-! ## The call -/

/-- What `repair` uses of the anchor it is given. Each sees the rows as they are at the time. -/
structure RepairAnchor where
  /-- `valid` and the formatted `reason` of `verify_notary`. -/
  verifyNotary : List AuditRow → Except PyError (Bool × Str)
  anchor : List AuditRow → Except PyError Unit
  notarize : List AuditRow → Except PyError Unit

/-- The arguments of `repair`. -/
structure RepairCall where
  operator : Option Str
  anchor : Option RepairAnchor
  /-- `bool(notary_log)` -/
  notaryLog : Bool

/-- What `repair` meets: the token, the clock, and what the store raises. -/
structure RepairEnv where
  /-- `settings.operator_token` -/
  operatorToken : Str
  /-- What the first query raises. -/
  readFailure : Option PyError
  /-- What a statement of the transaction raises. Then it is rolled back. -/
  failure : Option PyError
  eventTime : Str
  repairedAt : Str
  /-- What the `_set_meta` calls raise, by their number. -/
  metaFailure : Nat → Option PyError

/-- What `repair` returns. -/
structure RepairResult where
  repaired : Bool
  brokenAtSeq : Option Int
  repairedAtSeq : Option Int
  recordCount : Nat
  notarized : Bool

/-- `raise e`, where the world raises. -/
def raiseOf : Option PyError → Except PyError Unit
  | some e => .error e
  | none => .ok ()

/-- `secrets.compare_digest` of two texts. It takes ASCII only. -/
def compareDigest (a b : Str) : Except PyError Bool :=
  if a.all (fun c => c.val < 128) && b.all (fun c => c.val < 128) then .ok (a = b)
    else .error .typeError

/-- The check of the operator. -/
def checkOperator (token : Str) (operator : Option Str) : Except PyError Unit :=
  if token = [] then .ok ()
  else do
    let same ← compareDigest (operator.getD []) token
    raiseIf (same = false)
      (.permissionError (lit "operator token required to repair the audit chain"))

/-! ## The rewrite -/

/-- The `seq` of the first row that breaks the chain, and the hash before it. -/
def firstBroken (expectedPrev : Str) : List AuditRow → Except PyError (Option (Int × Str))
  | [] => .ok none
  | row :: rows => do
    let h ← recomputed P row
    if row.prevHash ≠ expectedPrev ∨ h ≠ row.recordHash then .ok (some (row.seq, expectedPrev))
    else firstBroken row.recordHash rows

/-- The cross-check with the notary, before anything is written. -/
def notaryCheck (call : RepairCall) (rows : List AuditRow) : Except PyError Unit :=
  match call.anchor, call.notaryLog with
  | some anchor, true => do
    let (valid, reason) ← anchor.verifyNotary rows
    raiseIf (valid = false)
      (.permissionError (lit "refusing to repair: notary log not verifiable — " ++ reason))
  | _, _ => .ok ()

def AuditRow.withHashes (row : AuditRow) (prevHash recordHash : Str) : AuditRow :=
  { row with prevHash := prevHash, recordHash := recordHash }

/-- `UPDATE audit_records SET prev_hash=?, record_hash=? WHERE seq=?` -/
def AuditDb.setHashes (db : AuditDb) (seq : Int) (prevHash recordHash : Str) : AuditDb where
  rows := db.rows.map fun r => if r.seq = seq then r.withHashes prevHash recordHash else r
  sequence := db.sequence
  chainMeta := db.chainMeta
  sorted := by
    refine List.pairwise_map.mpr (db.sorted.imp fun {a b} hab => ?_)
    split <;> split <;> exact hab

/-- The loop over the tail. -/
def relink (prev : Str) (db : AuditDb) : List AuditRow → Except PyError (Str × AuditDb)
  | [] => .ok (prev, db)
  | row :: tail => do
    let payload ← loads row.payload
    let newHash ← computeHash P prev row.component row.eventType payload row.timestamp
    relink newHash (db.setHashes row.seq prev newHash) tail

/-- The payload of the event. -/
def repairEvent (brokenAt : Int) (anchor : Str) (operator : Option Str) : PyVal :=
  .dict [(.str (lit "broken_at_seq"), .int brokenAt), (.str (lit "anchor"), .str anchor),
    (.str (lit "operator"),
      .str (if operator.getD [] = [] then lit "unauthenticated-dev" else operator.getD []))]

/-- The transaction: the tail is linked again, and the event appended. -/
def rewrite (env : RepairEnv) (operator : Option Str) (db : AuditDb) (brokenAt : Int)
    (anchor : Str) : Except PyError (Int × AuditDb) := do
  raiseOf env.failure
  let (prev, relinked) ← relink P anchor db (db.rows.filter fun r => brokenAt ≤ r.seq)
  let payload := repairEvent brokenAt anchor operator
  let eventHash ← computeHash P prev (lit "chain") (lit "repaired") payload env.eventTime
  let text ← dumps P.keySort false plainStyle payload
  raiseIf (maxRowid < relinked.nextSeq) (.osError (lit "database or disk is full"))
  .ok (relinked.nextSeq,
    relinked.push (lit "chain") (lit "repaired") text env.eventTime prev eventHash)

/-- Everything up to the commit: `none` where the chain is not broken, else the `seq` of the break,
the `seq` of the event, and what is committed. -/
def prepare (env : RepairEnv) (call : RepairCall) (db : AuditDb) :
    Except PyError (Option (Int × Int × AuditDb)) := do
  checkOperator env.operatorToken call.operator
  raiseOf env.readFailure
  match ← firstBroken P genesisHash db.rows with
  | none => .ok none
  | some (brokenAt, anchor) =>
    notaryCheck call db.rows
    let (repairedAt, rewritten) ← rewrite P env call.operator db brokenAt anchor
    .ok (some (brokenAt, repairedAt, rewritten))

/-! ## The whole call -/

def AuditDb.setMeta (db : AuditDb) (f : ChainMeta → ChainMeta) : AuditDb :=
  { db with chainMeta := f db.chainMeta }

/-- `_set_meta` again and again, up to the first that raises. Each is a transaction of its own. -/
def setMetas (failure : Nat → Option PyError) (k : Nat) (db : AuditDb) :
    List (ChainMeta → ChainMeta) → Except PyError Unit × AuditDb
  | [] => (.ok (), db)
  | f :: fs =>
    match failure k with
    | some e => (.error e, db)
    | none => setMetas failure (k + 1) (db.setMeta f) fs

/-- The anchor and the snapshot after the commit. -/
def forceReanchor (call : RepairCall) (rows : List AuditRow) : Except PyError Bool :=
  match call.anchor with
  | none => .ok false
  | some anchor => do
    anchor.anchor rows
    if call.notaryLog then
      anchor.notarize rows
      .ok true
    else .ok false

/-- `AuditChain.repair`: what it returns or raises, and the database it leaves. -/
def repair (env : RepairEnv) (call : RepairCall) (db : AuditDb) :
    Except PyError RepairResult × AuditDb :=
  match prepare P env call db with
  | .error e => (.error e, db)
  | .ok none =>
    let (written, after) :=
      setMetas env.metaFailure 0 db [fun m => { m with state := some (lit "active") }]
    (written.map fun _ => ⟨false, none, none, db.rows.length, false⟩, after)
  | .ok (some (brokenAt, repairedAt, rewritten)) =>
    -- the rewrite is committed: what raises from here on is raised over a repaired table
    let (written, after) := setMetas env.metaFailure 0 rewritten
      [fun m => { m with state := some (lit "active") }, fun m => { m with brokenAtSeq := some [] },
        fun m => { m with repairedAt := some env.repairedAt }]
    let result := do
      written
      let notarized ← forceReanchor call after.rows
      .ok ⟨true, some brokenAt, some repairedAt, db.rows.length, notarized⟩
    (result, after)

/-! ## Receipts of the chain -/

/-- `AuditChain.merkle_root` -/
def chainMerkleRoot (rows : List AuditRow) : Except PyError Str :=
  merkleRoot P (rows.map AuditRow.recordHash)

/-- `AuditChain.inclusion_proof` -/
def chainInclusionProof (rows : List AuditRow) (seq : Int) : Except PyError InclusionProof := do
  let records ← getChain rows
  match records.findIdx? fun r => r.seq = seq with
  | some i =>
    let proof ← inclusionProof P (records.map AuditRecord.recordHash) i
    .ok { proof with seq := seq }
  | none =>
    .error (.raised (lit "IndexError") (lit "no audit record with seq " ++ (intLit seq).text))

/-- `AuditChain.verify_inclusion` -/
def chainVerifyInclusion (rows : List AuditRow) (proof : InclusionProof)
    (expectedRoot : Option Str) : Except PyError Bool := do
  let root ← match expectedRoot with
    | some root => .ok root
    | none => chainMerkleRoot P rows
  if ← verifyInclusion P proof (some root) then do
    let records ← getChain rows
    if proof.seq - 1 < 0 then .ok false
    else
      match records[(proof.seq - 1).toNat]? with
      | some record => .ok (record.recordHash = proof.leafHash)
      | none => .ok false
  else .ok false

/-! ## The exporter -/

def exportError (message : Str) : PyError := .raised (lit "ExportError") message

/-- `_export_record`. `decodeError` is the text of a `JSONDecodeError`. -/
def exportRecord (decodeError : Str → Str) (row : AuditRow) : Except PyError AuditRecord := do
  let at_ := (intLit row.seq).text
  match loads row.payload with
  | .error _ =>
    .error (exportError
      (lit "malformed payload at seq " ++ at_ ++ lit ": " ++ decodeError row.payload))
  | .ok payload =>
    raiseIf (row.seq < 1) (exportError (lit "invalid sequence at row " ++ at_))
    raiseIf (isHash (.str row.prevHash) = false)
      (exportError (lit "invalid prev_hash at seq " ++ at_))
    raiseIf (isHash (.str row.recordHash) = false)
      (exportError (lit "invalid record_hash at seq " ++ at_))
    let expected ← computeHash P row.prevHash row.component row.eventType payload row.timestamp
    raiseIf (expected ≠ row.recordHash) (exportError (lit "record hash mismatch at seq " ++ at_))
    .ok ⟨row.seq, row.component, row.eventType, payload, row.timestamp, row.prevHash,
      row.recordHash⟩

/-- The loop of `_verify_rows`. -/
def exportRows (decodeError : Str → Str) (expectedSeq : Int) (expectedPrev : Str) :
    List AuditRow → Except PyError (List AuditRecord)
  | [] => .ok []
  | row :: rows => do
    let record ← exportRecord P decodeError row
    raiseIf (record.seq ≠ expectedSeq)
      (exportError (lit "sequence gap: expected " ++ (intLit expectedSeq).text
      ++ lit ", got " ++ (intLit record.seq).text))
    raiseIf (record.prevHash ≠ expectedPrev)
      (exportError (lit "prev_hash mismatch at seq " ++ (intLit record.seq).text))
    let records ← exportRows decodeError (expectedSeq + 1) record.recordHash rows
    .ok (record :: records)

/-- `_verify_rows` -/
def verifyExportRows (decodeError : Str → Str) (rows : List AuditRow) :
    Except PyError (List AuditRecord × Str × Nat) := do
  let records ← exportRows P decodeError 1 genesisHash rows
  raiseIf (records.isEmpty = true)
    (exportError (lit "audit chain is empty; refusing to create a false export manifest"))
  .ok (records, tip AuditRecord.recordHash genesisHash records, records.length)

/-! ## What the rewrite does -/

section

variable {P}

/-- What `repair` leaves as it is in a row. -/
def AuditRow.content (r : AuditRow) : Int × Str × Str × Str × Str :=
  (r.seq, r.component, r.eventType, r.payload, r.timestamp)

@[simp] theorem content_withHashes (r : AuditRow) (prevHash recordHash : Str) :
    (r.withHashes prevHash recordHash).content = r.content := rfl

/-- `tail` with new hashes: linked behind `prev`, and verified. -/
structure Relinked (P : Platform) (prev : Str) (tail tail' : List AuditRow) : Prop where
  contents : tail'.map AuditRow.content = tail.map AuditRow.content
  linked : Linked AuditRow.prevHash AuditRow.recordHash prev tail'
  hashed : ∀ r ∈ tail', recomputed P r = .ok r.recordHash

variable {rows front tail : List AuditRow} {db db' : AuditDb} {row r : AuditRow} {env : RepairEnv}
  {call : RepairCall} {decodeError : Str → Str}

/-- The `seq` of the last row, through the contents. -/
theorem lastSeq_eq_of_contents {rows' : List AuditRow}
    (h : rows'.map AuditRow.content = rows.map AuditRow.content) :
    Ledger.lastSeq rows' = Ledger.lastSeq rows := by
  have hlast : ∀ rs : List AuditRow,
      Ledger.lastSeq rs = ((rs.map AuditRow.content).getLast?.map Prod.fst).getD 0 := by
    intro rs
    rw [Ledger.lastSeq, List.getLast?_map]
    cases rs.getLast? <;> rfl
  rw [hlast, hlast, h]

theorem setHashes_rows {prevHash recordHash : Str} (hrows : db.rows = front ++ row :: tail) :
    (db.setHashes row.seq prevHash recordHash).rows = front ++ row.withHashes prevHash recordHash ::
    tail := by
  have hsorted := db.sorted
  rw [hrows, List.pairwise_append, List.pairwise_cons] at hsorted
  obtain ⟨-, ⟨htail, -⟩, hfront⟩ := hsorted
  have hkeep : ∀ rs : List AuditRow, (∀ r ∈ rs, r.seq ≠ row.seq) →
      rs.map (fun r => if r.seq = row.seq then r.withHashes prevHash recordHash else r) = rs := by
    intro rs hrs
    exact (List.map_congr_left fun r hr => if_neg (hrs r hr)).trans (List.map_id' rs)
  change db.rows.map _ = _
  rw [hrows, List.map_append, List.map_cons, if_pos rfl, hkeep front, hkeep tail]
  · exact fun r hr => (htail r hr).ne'
  · exact fun r hr => (hfront r hr row (List.mem_cons_self ..)).ne

/-- **The loop over the tail.** The rows in front of it are not touched. -/
theorem relink_spec {prev last : Str} (hrows : db.rows = front ++ tail)
    (h : relink P prev db tail = .ok (last, db')) :
    ∃ tail', db'.rows = front ++ tail' ∧ Relinked P prev tail tail' ∧
      last = tip AuditRow.recordHash prev tail' ∧ db'.sequence = db.sequence := by
  induction tail generalizing front prev db with
  | nil =>
    obtain ⟨rfl, rfl⟩ := Prod.mk.inj (Except.ok.inj h)
    exact ⟨[], hrows, ⟨rfl, trivial, by simp⟩, rfl, rfl⟩
  | cons row tail ih =>
    obtain ⟨payload, hload, h⟩ := bind_eq_ok.mp h
    obtain ⟨newHash, hhash, h⟩ := bind_eq_ok.mp h
    -- the row that was written joins the front
    have hnext : (db.setHashes row.seq prev newHash).rows =
        (front ++ [row.withHashes prev newHash]) ++ tail := by
      rw [setHashes_rows hrows, List.append_assoc, List.singleton_append]
    obtain ⟨tail', hrows', hrel, hlast, hseq⟩ := ih hnext h
    refine ⟨row.withHashes prev newHash :: tail', ?_, ⟨?_, ⟨rfl, hrel.linked⟩, ?_⟩, ?_, hseq⟩
    · rw [hrows', List.append_assoc, List.singleton_append]
    · simp [hrel.contents]
    · exact List.forall_mem_cons.mpr ⟨recomputed_eq_ok.mpr ⟨payload, hload, hhash⟩, hrel.hashed⟩
    · rw [hlast, tip_cons]
      rfl

/-! ## Where the chain breaks -/

/-- The first break splits the rows, and it is the one that `verify_chain` reports. -/
theorem firstBroken_eq_some {g anchor : Str} {seq : Int}
    (h : firstBroken P g rows = .ok (some (seq, anchor))) :
    ∃ head row tail, rows = head ++ row :: tail ∧ row.seq = seq ∧
      Linked AuditRow.prevHash AuditRow.recordHash g head ∧
      (∀ r ∈ head, recomputed P r = .ok r.recordHash) ∧
      anchor = tip AuditRow.recordHash g head ∧ ∃ reason, verifyRows P g rows =
          .ok (some (.broken seq reason)) := by
  induction rows generalizing g with
  | nil => simp [firstBroken] at h
  | cons row rows ih =>
    obtain ⟨hash, hhash, h⟩ := bind_eq_ok.mp h
    split at h
    · next hbreak =>
      obtain ⟨rfl, rfl⟩ : row.seq = seq ∧ g = anchor := by simpa using h
      refine ⟨[], row, rows, rfl, rfl, trivial, by simp, rfl, ?_⟩
      simp only [verifyRows, hhash, bind, Except.bind]
      by_cases hprev : row.prevHash = g
      · exact ⟨hashMismatch, by rw [if_neg (by simp [hprev]),
          if_pos (hbreak.resolve_left (by simp [hprev]))]⟩
      · exact ⟨prevMismatch, if_pos hprev⟩
    · next hgood =>
      simp only [not_or, not_not] at hgood
      obtain ⟨hprev, rfl⟩ := hgood
      obtain ⟨head, broken, tail, rfl, hseq, hlinked, hhashed, hanchor, reason, hverify⟩ := ih h
      refine ⟨row :: head, broken, tail, rfl, hseq, ⟨hprev, hlinked⟩, ?_, hanchor, reason, ?_⟩
      · exact List.forall_mem_cons.mpr ⟨hhash, hhashed⟩
      · simp [verifyRows, hhash, hprev, hverify, bind, Except.bind]

/-- The tail that is read again is the tail behind the break. -/
theorem filter_from {head : List AuditRow} (hrows : db.rows = head ++ row :: tail) :
    (db.rows.filter fun r => row.seq ≤ r.seq) = row :: tail ∧ ∀ r ∈ head, r.seq < row.seq := by
  have hsorted := db.sorted
  rw [hrows, List.pairwise_append, List.pairwise_cons] at hsorted
  obtain ⟨-, ⟨htail, -⟩, hhead⟩ := hsorted
  have hbefore : ∀ r ∈ head, r.seq < row.seq := fun r hr => hhead r hr row (List.mem_cons_self ..)
  refine ⟨?_, hbefore⟩
  rw [hrows, List.filter_append, List.filter_eq_nil_iff.mpr, List.nil_append, List.filter_eq_self]
  · simpa using fun r hr => (htail r hr).le
  · simpa using hbefore

/-! ## What a repair restores -/

/-- The row that `repair` appends. -/
structure IsRepairEvent (P : Platform) (env : RepairEnv) (operator : Option Str) (brokenAt : Int)
    (anchor : Str) (event : AuditRow) : Prop where
  component : event.component = lit "chain"
  eventType : event.eventType = lit "repaired"
  timestamp : event.timestamp = env.eventTime
  payload : dumps P.keySort false plainStyle (repairEvent brokenAt anchor operator) =
    .ok event.payload

/-- **What a repair leaves.** The chain verifies; the rows before the break are as they were, the
rows from the break on have new hashes and nothing else, and one row is appended. -/
structure Restored (P : Platform) (env : RepairEnv) (operator : Option Str)
    (rows rows' : List AuditRow) (brokenAt : Int) : Prop where
  broken : ∃ reason, verifyChain P (.ok rows) = .ok (.broken brokenAt reason)
  valid : verifyChain P (.ok rows') = .ok (.valid (rows.length + 1))
  split : ∃ head tail tail' event, rows = head ++ tail ∧ rows' = head ++ tail' ++ [event] ∧
    (∀ r ∈ head, r.seq < brokenAt) ∧ (∀ r ∈ tail, brokenAt ≤ r.seq) ∧
    tail'.map AuditRow.content = tail.map AuditRow.content ∧
    IsRepairEvent P env operator brokenAt (tip AuditRow.recordHash genesisHash head) event

theorem nextSeq_of_relinked {tail' : List AuditRow} (hrows : db.rows = front ++ tail)
    (hrows' : db'.rows = front ++ tail')
    (hcontents : tail'.map AuditRow.content = tail.map AuditRow.content)
    (hseq : db'.sequence = db.sequence) : db'.nextSeq = db.nextSeq := by
  have hlast : Ledger.lastSeq db'.rows = Ledger.lastSeq db.rows := by
    refine lastSeq_eq_of_contents ?_
    rw [hrows, hrows', List.map_append, List.map_append, hcontents]
  unfold AuditDb.nextSeq AuditDb.lastSeq
  rw [hlast, hseq]

theorem stable_repairEvent (S : KeySort) (brokenAt : Int) (anchor : Str) (operator : Option Str) :
    Stable S (repairEvent brokenAt anchor operator) :=
  have hkeys : (lit "broken_at_seq") ≠ lit "anchor" ∧ lit "broken_at_seq" ≠ lit "operator" ∧
      lit "anchor" ≠ lit "operator" := by
    decide
  stable_of_strKeyed _ _ (by simp [repairEvent, strKeyed, PyKey.isStr, hkeys])

/-- A row is recomputed to the hash that its payload in memory has. -/
theorem recomputed_written {seq : Int} {prev comp ev ts h : Str} {payload : PyVal}
    (hhash : computeHash P prev comp ev payload ts = .ok h) (hstable : Stable P.keySort payload) :
    recomputed P ⟨seq, comp, ev, render plainStyle (toJson P.keySort false payload), ts, prev, h⟩ =
        .ok h := by
  let record : AuditRecord := ⟨seq, comp, ev, payload, ts, prev, h⟩
  have hrecord : recomputed P (record.stored P) = .ok record.recordHash :=
    recomputed_of_stable hhash hstable
  exact hrecord

/-- **The transaction**, on rows that break behind a verified head. -/
theorem rewrite_spec {operator : Option Str} {head : List AuditRow} {at' : Int}
    (hrows : db.rows = head ++ row :: tail)
    (hlinked : Linked AuditRow.prevHash AuditRow.recordHash genesisHash head)
    (hhashed : ∀ r ∈ head, recomputed P r = .ok r.recordHash)
    (h : rewrite P env operator db row.seq (tip AuditRow.recordHash genesisHash head) =
      .ok (at', db')) :
    ∃ tail' event, db'.rows = head ++ tail' ++ [event] ∧ tail'.map AuditRow.content =
      (row :: tail).map AuditRow.content ∧
      event.seq = db.nextSeq ∧ at' = db.nextSeq ∧ db.nextSeq ≤ maxRowid ∧ ValidRows P db'.rows ∧
      IsRepairEvent P env operator row.seq (tip AuditRow.recordHash genesisHash head) event := by
  obtain ⟨_, -, h⟩ := bind_eq_ok.mp h
  obtain ⟨⟨prev, relinked⟩, hrelink, h⟩ := bind_eq_ok.mp h
  obtain ⟨eventHash, hhash, h⟩ := bind_eq_ok.mp h
  obtain ⟨text, htext, h⟩ := bind_eq_ok.mp h
  obtain ⟨_, hroom, h⟩ := bind_eq_ok.mp h
  obtain ⟨rfl, rfl⟩ := Prod.mk.inj (Except.ok.inj h)
  rw [(filter_from hrows).1] at hrelink
  obtain ⟨tail', hrows', hrel, rfl, hseq⟩ := relink_spec hrows hrelink
  have hnext := nextSeq_of_relinked hrows hrows' hrel.contents hseq
  rw [raiseIf_eq_ok, hnext, not_lt] at hroom
  refine ⟨tail', _, congrArg (· ++ [_]) hrows', hrel.contents, hnext, hnext, hroom, ⟨?_, ?_⟩,
    ⟨rfl, rfl, rfl, htext⟩⟩
  · change Linked _ _ _ (relinked.rows ++ [_])
    rw [linked_concat, hrows', linked_append, tip_append]
    exact ⟨⟨hlinked, hrel.linked⟩, rfl⟩
  · change ∀ r ∈ relinked.rows ++ [_], _
    rw [hrows', List.forall_mem_append, List.forall_mem_append, List.forall_mem_singleton]
    refine ⟨⟨hhashed, hrel.hashed⟩, ?_⟩
    -- the event is a row as `append` writes them, and its keys are strings
    obtain rfl :
      render plainStyle
      (toJson P.keySort false (repairEvent row.seq (tip AuditRow.recordHash genesisHash head)
      operator)) = text := by simpa [dumps] using htext
    exact recomputed_written hhash (stable_repairEvent ..)

/-- **A repair that comes to the commit restores the chain.** -/
theorem prepare_spec {brokenAt at' : Int}
    (h : prepare P env call db = .ok (some (brokenAt, at', db'))) :
    Restored P env call.operator db.rows db'.rows brokenAt ∧ at' = db.nextSeq ∧
      db'.rows.map AuditRow.seq = db.rows.map AuditRow.seq ++ [db.nextSeq] := by
  obtain ⟨_, -, h⟩ := bind_eq_ok.mp h
  obtain ⟨_, -, h⟩ := bind_eq_ok.mp h
  obtain ⟨found, hbroken, h⟩ := bind_eq_ok.mp h
  cases found with
  | none => cases h
  | some p =>
    obtain ⟨seq, anchor⟩ := p
    obtain ⟨_, -, h⟩ := bind_eq_ok.mp h
    obtain ⟨⟨at'', rewritten⟩, hrewrite, h⟩ := bind_eq_ok.mp h
    obtain ⟨rfl, rfl, rfl⟩ : seq = brokenAt ∧ at'' = at' ∧ rewritten = db' := by simpa using h
    obtain ⟨head, row, tail, hrows, rfl, hlinked, hhashed, rfl, reason, hverify⟩ :=
      firstBroken_eq_some hbroken
    obtain ⟨tail', event, hrows', hcontents, hevent, hat, -, hvalid, hisEvent⟩ :=
      rewrite_spec hrows hlinked hhashed hrewrite
    have hbefore := (filter_from hrows).2
    have hfrom : ∀ r ∈ row :: tail, row.seq ≤ r.seq := by
      intro r hr
      rw [← (filter_from hrows).1, List.mem_filter] at hr
      simpa using hr.2
    have hseqs : tail'.map AuditRow.seq = (row :: tail).map AuditRow.seq := by
      have hfst := congrArg (List.map Prod.fst) hcontents
      rwa [List.map_map, List.map_map] at hfst
    have hcount : tail'.length = (row :: tail).length := by simpa using congrArg List.length hseqs
    have hlen : db.rows.length + 1 = rewritten.rows.length := by
      simp [hrows, hrows', hcount, Nat.add_assoc]
    refine ⟨⟨⟨reason, ?_⟩, ?_, head, row :: tail, tail', event, hrows, hrows', hbefore, hfrom,
      hcontents, hisEvent⟩, hat, ?_⟩
    · simp [verifyChain, hverify]
    · exact verifyChain_valid_iff.mpr ⟨hvalid, hlen⟩
    · rw [hrows', hrows, List.map_append, List.map_append, List.map_append, hseqs,
        List.map_singleton, hevent]

/-! ## The readers -/

/-- The numbers count up from `k`. -/
def Numbered : Int → List AuditRow → Prop
  | _, [] => True
  | k, r :: rows => r.seq = k ∧ Numbered (k + 1) rows

theorem numbered_congr : ∀ {k : Int} {rows rows' : List AuditRow}, rows.map AuditRow.seq =
    rows'.map AuditRow.seq → (Numbered k rows ↔ Numbered k rows')
  | _, [], [], _ => Iff.rfl
  | _, [], _ :: _, h => by simp at h
  | _, _ :: _, [], h => by simp at h
  | k, r :: rows, r' :: rows', h => by
    obtain ⟨hseq, hrest⟩ := List.cons.inj h
    rw [Numbered, Numbered, hseq, numbered_congr hrest]

theorem numbered_append : ∀ {k : Int} {rows rows' : List AuditRow},
    Numbered k (rows ++ rows') ↔ Numbered k rows ∧ Numbered (k + rows.length) rows'
  | k, [], rows' => by simp [Numbered]
  | k, r :: rows, rows' => by
    simp only [List.cons_append, Numbered, numbered_append, List.length_cons, and_assoc]
    push_cast
    ring_nf

theorem numbered_getElem : ∀ {k : Int} {rows : List AuditRow}, Numbered k rows →
    ∀ (i : Nat) (hi : i < rows.length), (rows[i]).seq = k + i
  | _, _ :: _, h, 0, _ => by simpa using h.1
  | k, _ :: rows, h, i + 1, hi => by
    rw [List.getElem_cons_succ, numbered_getElem h.2 i (by simpa using hi)]
    push_cast
    ring

/-- The receipt of every record is built, and accepted. -/
def Receipts (P : Platform) (rows : List AuditRow) : Prop :=
  ∀ r ∈ rows, ∃ proof, chainInclusionProof P rows r.seq = .ok proof ∧
    chainVerifyInclusion P rows proof none = .ok true

/-- `_verify_rows` goes through. -/
def Exports (P : Platform) (decodeError : Str → Str) (rows : List AuditRow) : Prop :=
  ∃ result, verifyExportRows P decodeError rows = .ok result

/-! ### Records -/

theorem fields_of_toRecord {record : AuditRecord} (h : row.toRecord = .ok record) :
    record.seq = row.seq ∧ record.prevHash = row.prevHash ∧ record.recordHash = row.recordHash := by
  obtain ⟨payload, -, h⟩ := bind_eq_ok.mp h
  obtain rfl := Except.ok.inj h
  exact ⟨rfl, rfl, rfl⟩

/-- Verified rows can be read. -/
theorem getChain_of_hashed : ∀ {rows : List AuditRow},
    (∀ r ∈ rows, recomputed P r = .ok r.recordHash) →
    ∃ records, getChain rows = .ok records ∧ records.map AuditRecord.seq = rows.map AuditRow.seq ∧
      records.map AuditRecord.recordHash = rows.map AuditRow.recordHash
  | [], _ => ⟨[], rfl, rfl, rfl⟩
  | row :: rows, h => by
    obtain ⟨payload, hload, -⟩ := recomputed_eq_ok.mp (h row (List.mem_cons_self ..))
    obtain ⟨records, hrecords, hseqs, hhashes⟩ :=
      getChain_of_hashed fun r hr => h r (List.mem_cons_of_mem _ hr)
    obtain ⟨record, hrecord⟩ : ∃ record, row.toRecord = .ok record := by
      simp [AuditRow.toRecord, hload, bind, Except.bind]
    obtain ⟨hseq, -, hhash⟩ := fields_of_toRecord hrecord
    refine ⟨record :: records, ?_, by simp [hseq, hseqs], by simp [hhash, hhashes]⟩
    rw [getChain, List.mapM_cons, hrecord]
    change (getChain rows >>= _) = _
    rw [hrecords]
    rfl

/-- A digest can be hashed again. -/
theorem leafDigest_of_hashed (h : recomputed P r = .ok r.recordHash) :
    ∃ leaf, leafDigest P r.recordHash = .ok leaf := by
  obtain ⟨_, -, hhash⟩ := recomputed_eq_ok.mp h
  obtain ⟨-, b, -, heq⟩ := computeHash_eq_ok.mp hhash
  obtain ⟨bytes, hbytes⟩ := encode_of_scalar (scalar?_hex (P.sha256 b))
  have henc : encodeE r.recordHash = .ok bytes := encodeE_eq_ok.mpr (heq ▸ hbytes)
  exact ⟨_, by rw [leafDigest, henc]; rfl⟩

theorem chainMerkleRoot_of_hashed (h : ∀ r ∈ rows, recomputed P r = .ok r.recordHash) :
    ∃ root, chainMerkleRoot P rows = .ok root := by
  have hleaves : ∃ leaves, (rows.map AuditRow.recordHash).mapM (leafDigest P) = .ok leaves := by
    induction rows with
    | nil => exact ⟨[], rfl⟩
    | cons row rows ih =>
      obtain ⟨leaf, hleaf⟩ := leafDigest_of_hashed (h row (List.mem_cons_self ..))
      obtain ⟨leaves, hleaves⟩ := ih fun r hr => h r (List.mem_cons_of_mem _ hr)
      refine ⟨leaf :: leaves, ?_⟩
      rw [List.map_cons, List.mapM_cons, hleaf, hleaves]
      rfl
  obtain ⟨leaves, hleaves⟩ := hleaves
  rw [chainMerkleRoot, merkleRoot, hleaves]
  cases hlast : (merkleLevels P leaves).getLast? with
  | none => exact ⟨emptyRoot, by simp [bind, Except.bind, hlast]⟩
  | some level => exact ⟨hex (level.headD []), by simp [bind, Except.bind, hlast]⟩


/-! ### Receipts -/

theorem inclusionProof_leafHash {recordHashes : List Str} {i : Nat} {proof : InclusionProof}
    (hi : i < recordHashes.length)
    (h : inclusionProof P recordHashes i = .ok proof) : proof.leafHash = recordHashes[i] := by
  have hne : recordHashes ≠ [] := List.length_pos_iff.mp (by omega)
  rw [inclusionProof, if_neg hne, dif_pos (by omega)] at h
  obtain ⟨leaves, -, h⟩ := bind_eq_ok.mp h
  obtain ⟨path, -, h⟩ := bind_eq_ok.mp h
  obtain rfl := Except.ok.inj h
  rfl

/-- **The receipts of a verified chain**, whose numbers count up from 1. -/
theorem receipts_of_numbered (hhashed : ∀ r ∈ rows, recomputed P r = .ok r.recordHash)
    (hnumbered : Numbered 1 rows) : Receipts P rows := by
  intro r hr
  obtain ⟨i, hi, rfl⟩ := List.getElem_of_mem hr
  obtain ⟨records, hrecords, hseqs, hhashes⟩ := getChain_of_hashed hhashed
  obtain ⟨root, hroot⟩ := chainMerkleRoot_of_hashed hhashed
  have hlen : records.length = rows.length := by simpa using congrArg List.length hseqs
  have hseq : ∀ (j : Nat) (hj : j < records.length), (records[j]).seq = 1 + j := by
    intro j hj
    have hmap := List.getElem_of_eq hseqs (i := j) (by simpa using hj)
    rw [List.getElem_map, List.getElem_map] at hmap
    rw [hmap, numbered_getElem hnumbered j (by omega)]
  have hfind : (records.findIdx? fun record => record.seq = (rows[i]).seq) = some i := by
    rw [numbered_getElem hnumbered i hi, List.findIdx?_eq_some_iff_getElem]
    refine ⟨by omega, by simp [hseq], fun j hj => ?_⟩
    simp only [hseq, decide_eq_true_eq]
    omega
  obtain ⟨proof, -, hproof, hverify, -⟩ :=
    verifyInclusion_inclusionProof (P := P) (i := i) hroot (by simpa using hi)
  refine ⟨{ proof with seq := (rows[i]).seq }, ?_, ?_⟩
  · simp [chainInclusionProof, hrecords, hfind, hhashes, hproof, bind, Except.bind]
  · have hleaf := inclusionProof_leafHash (by simpa using hi) hproof
    have hverify' : verifyInclusion P { proof with seq := (rows[i]).seq } (some root) = .ok true :=
      hverify
    have hat : records[((rows[i]).seq - 1).toNat]? = records[i]? := by
      rw [numbered_getElem hnumbered i hi]
      congr 1
      omega
    have hi' : i < records.length := by omega
    have hrecord : (records[i]).recordHash = (rows[i]).recordHash := by
      have hmap := List.getElem_of_eq hhashes (i := i) (by simpa [hlen] using hi)
      rwa [List.getElem_map, List.getElem_map] at hmap
    have hpos : ¬(rows[i]).seq - 1 < 0 := by
      rw [numbered_getElem hnumbered i hi]
      omega
    simp only [chainVerifyInclusion, hroot, hverify', hrecords, bind, Except.bind, if_true,
      if_neg hpos, hat]
    rw [List.getElem?_eq_getElem hi']
    simp [hleaf, hrecord]

/-! ### The exporter -/

theorem isHash_recordHash (hwidth : ∀ b, (P.sha256 b).length = 32)
    (h : recomputed P r = .ok r.recordHash) :
    isHash (.str r.recordHash) = true := by
  obtain ⟨_, -, hhash⟩ := recomputed_eq_ok.mp h
  obtain ⟨-, b, -, heq⟩ := computeHash_eq_ok.mp hhash
  rw [heq]
  exact isHash_hex (hwidth b)

/-- A row that is exported has a positive number. -/
theorem exportRecord_of_hashed (decodeError : Str → Str) (h : recomputed P r = .ok r.recordHash)
    (hprev : isHash (.str r.prevHash) = true) (hhash : isHash (.str r.recordHash) = true)
    (hpos : 1 ≤ r.seq) :
    ∃ record, exportRecord P decodeError r = .ok record ∧ record.seq = r.seq ∧
      record.prevHash = r.prevHash ∧ record.recordHash = r.recordHash := by
  obtain ⟨payload, hload, hcompute⟩ := recomputed_eq_ok.mp h
  refine ⟨⟨r.seq, r.component, r.eventType, payload, r.timestamp, r.prevHash, r.recordHash⟩, ?_,
    rfl, rfl, rfl⟩
  simp [exportRecord, hload, hprev, hhash, hcompute, raiseIf, bind, Except.bind, not_lt.mpr hpos]

theorem exportRecord_fields {record : AuditRecord} (h : exportRecord P decodeError r = .ok record) :
    record.seq = r.seq ∧ record.prevHash = r.prevHash ∧ record.recordHash = r.recordHash := by
  unfold exportRecord at h
  split at h
  · cases h
  · obtain ⟨_, -, h⟩ := bind_eq_ok.mp h
    obtain ⟨_, -, h⟩ := bind_eq_ok.mp h
    obtain ⟨_, -, h⟩ := bind_eq_ok.mp h
    obtain ⟨_, -, h⟩ := bind_eq_ok.mp h
    obtain ⟨_, -, h⟩ := bind_eq_ok.mp h
    obtain rfl := Except.ok.inj h
    exact ⟨rfl, rfl, rfl⟩

theorem exportRows_length {decodeError : Str → Str} : ∀ {rows : List AuditRow} {k : Int} {g : Str}
    {records : List AuditRecord},
    exportRows P decodeError k g rows = .ok records → records.length = rows.length
  | [], _, _, _, h => by
    obtain rfl := Except.ok.inj h
    rfl
  | row :: rows, _, _, _, h => by
    obtain ⟨record, -, h⟩ := bind_eq_ok.mp h
    obtain ⟨_, -, h⟩ := bind_eq_ok.mp h
    obtain ⟨_, -, h⟩ := bind_eq_ok.mp h
    obtain ⟨records', hmore, h⟩ := bind_eq_ok.mp h
    obtain rfl := Except.ok.inj h
    simp [exportRows_length hmore]

/-- Of a verified chain the numbers decide. -/
theorem exportRows_iff (hwidth : ∀ b, (P.sha256 b).length = 32) (decodeError : Str → Str) {k : Int}
    {g : Str} (hk : 1 ≤ k) (hg : isHash (.str g) = true)
    (hlinked : Linked AuditRow.prevHash AuditRow.recordHash g rows)
    (hhashed : ∀ r ∈ rows, recomputed P r = .ok r.recordHash) :
    (∃ records, exportRows P decodeError k g rows = .ok records) ↔ Numbered k rows := by
  induction rows generalizing k g with
  | nil => simp [exportRows, Numbered]
  | cons row rows ih =>
    obtain ⟨hrow, hrows⟩ := List.forall_mem_cons.mp hhashed
    obtain ⟨hprev, hlinked⟩ := hlinked
    have hhash := isHash_recordHash hwidth hrow
    have hrest := ih (show 1 ≤ k + 1 by omega) hhash hlinked hrows
    constructor
    · rintro ⟨records, h⟩
      obtain ⟨record, hrecord, h⟩ := bind_eq_ok.mp h
      obtain ⟨_, hseq, h⟩ := bind_eq_ok.mp h
      obtain ⟨_, -, h⟩ := bind_eq_ok.mp h
      obtain ⟨records', hmore, -⟩ := bind_eq_ok.mp h
      obtain ⟨hseq', -, hhash'⟩ := exportRecord_fields hrecord
      rw [raiseIf_eq_ok, not_not, hseq'] at hseq
      rw [hhash'] at hmore
      exact ⟨hseq, hrest.mp ⟨records', hmore⟩⟩
    · rintro ⟨hseq, hnumbered⟩
      obtain ⟨records, hrecords⟩ := hrest.mpr hnumbered
      obtain ⟨record, hrecord, hseq', hprev', hhash'⟩ := exportRecord_of_hashed decodeError hrow
        (hprev ▸ hg) hhash (hseq ▸ hk)
      refine ⟨record :: records, ?_⟩
      simp [exportRows, hrecord, hseq', hseq, hprev', hprev, hhash', hrecords, raiseIf, bind,
        Except.bind]

/-- **A verified chain is exported exactly when its numbers count up from 1.** -/
theorem exports_iff (hwidth : ∀ b, (P.sha256 b).length = 32) (hne : rows ≠ [])
    (hvalid : ValidRows P rows) : Exports P decodeError rows ↔ Numbered 1 rows := by
  have hgenesis : isHash (.str genesisHash) = true := by decide
  rw [← exportRows_iff hwidth decodeError le_rfl hgenesis hvalid.linked hvalid.hashed]
  constructor
  · rintro ⟨result, h⟩
    obtain ⟨records, hrecords, -⟩ := bind_eq_ok.mp h
    exact ⟨records, hrecords⟩
  · rintro ⟨records, hrecords⟩
    have hrecordsne : records ≠ [] := by
      rintro rfl
      exact hne (List.length_eq_zero_iff.mp (exportRows_length hrecords).symm)
    refine ⟨(records, tip AuditRecord.recordHash genesisHash records, records.length), ?_⟩
    simp [verifyExportRows, hrecords, raiseIf, hrecordsne, bind, Except.bind]

/-! ## The law of `repair` -/

/-- No number is missing: neither between the rows, nor behind the last one. -/
def Gapless (db : AuditDb) : Prop := Numbered 1 db.rows ∧ db.nextSeq = db.rows.length + 1

theorem setMetas_rows : ∀ (failure : Nat → Option PyError) (k : Nat) (db : AuditDb)
    (fs : List (ChainMeta → ChainMeta)), (setMetas failure k db fs).2.rows = db.rows
  | _, _, _, [] => rfl
  | failure, k, db, f :: fs => by
    rw [setMetas]
    split
    · rfl
    · exact setMetas_rows failure (k + 1) (db.setMeta f) fs

/-- A repair that reports success has committed. -/
theorem prepare_of_repaired {result : RepairResult} (h : (repair P env call db).1 = .ok result)
    (hrepaired : result.repaired = true) :
    ∃ brokenAt at' rewritten, prepare P env call db = .ok (some (brokenAt, at', rewritten)) ∧
      result.brokenAtSeq = some brokenAt ∧ result.repairedAtSeq = some at' ∧
      (repair P env call db).2.rows = rewritten.rows := by
  unfold repair at h ⊢
  split at h
  · cases h
  · obtain ⟨_, -, rfl⟩ := map_eq_ok.mp h
    cases hrepaired
  · next brokenAt at' rewritten hprepare =>
    obtain ⟨_, -, h⟩ := bind_eq_ok.mp h
    obtain ⟨_, -, h⟩ := bind_eq_ok.mp h
    obtain rfl := Except.ok.inj h
    exact ⟨brokenAt, at', rewritten, hprepare, rfl, rfl, setMetas_rows ..⟩

/-- **What a repaired chain is good for.** -/
theorem readers_of_repaired (hwidth : ∀ b, (P.sha256 b).length = 32) {brokenAt at' : Int}
    (h : prepare P env call db = .ok (some (brokenAt, at', db'))) :
    (Exports P decodeError db'.rows ↔ Gapless db) ∧ (Gapless db → Receipts P db'.rows) := by
  obtain ⟨hrestored, -, hseqs⟩ := prepare_spec h
  obtain ⟨hvalid, hlen⟩ := verifyChain_valid_iff.mp hrestored.valid
  have hne : db'.rows ≠ [] := List.length_pos_iff.mp (by omega)
  have hgapless : Numbered 1 db'.rows ↔ Gapless db := by
    obtain ⟨init, last, hsplit⟩ : ∃ init last, db'.rows = init ++ [last] := by
      rcases List.eq_nil_or_concat db'.rows with hnil | ⟨init, last, hsplit⟩
      · exact absurd hnil hne
      · exact ⟨init, last, by simpa using hsplit⟩
    rw [hsplit, List.map_append, List.map_singleton] at hseqs
    obtain ⟨hinit, hlast⟩ := List.append_inj' hseqs rfl
    have hcount : init.length = db.rows.length := by simpa using congrArg List.length hinit
    obtain hlast : last.seq = db.nextSeq := by simpa using hlast
    rw [hsplit, numbered_append, numbered_congr hinit, hcount, Numbered, hlast, Gapless, add_comm]
    simp [Numbered]
  rw [← hgapless]
  exact ⟨exports_iff hwidth hne hvalid, receipts_of_numbered hvalid.hashed⟩

/-- **The law of `repair`.** A call that raises before the commit changes nothing. A call that
reports success has restored the chain. It is exported again exactly when no number was missing
before, and then there is a receipt for every record. -/
theorem repair_law (hwidth : ∀ b, (P.sha256 b).length = 32) (decodeError : Str → Str)
    (env : RepairEnv) (call : RepairCall) (db : AuditDb) :
    (∀ e, prepare P env call db = .error e → repair P env call db = (.error e, db)) ∧
      ∀ result, (repair P env call db).1 = .ok result → result.repaired = true →
        (∃ brokenAt, result.brokenAtSeq = some brokenAt ∧ result.repairedAtSeq = some db.nextSeq ∧
          Restored P env call.operator db.rows (repair P env call db).2.rows brokenAt) ∧
        (Exports P decodeError (repair P env call db).2.rows ↔ Gapless db) ∧
        (Gapless db → Receipts P (repair P env call db).2.rows) := by
  refine ⟨fun e he => by simp [repair, he], fun result h hrepaired => ?_⟩
  obtain ⟨brokenAt, at', rewritten, hprepare, hbroken, hat, hrows⟩ :=
    prepare_of_repaired h hrepaired
  obtain ⟨hrestored, rfl, -⟩ := prepare_spec hprepare
  rw [hrows]
  exact ⟨⟨brokenAt, hbroken, hat, hrestored⟩, readers_of_repaired hwidth hprepare⟩

/-! ### An edited row, and a deleted one -/

/-- Nothing fails, and no token is set. -/
def plainRepair : RepairEnv where
  operatorToken := []
  readFailure := none
  failure := none
  eventTime := lit "t"
  repairedAt := lit "t"
  metaFailure _ := none

def bareCall : RepairCall := ⟨none, none, false⟩

/-- One row, whose hash is not its own. -/
def oneRow (seq : Int) : AuditDb where
  rows := [⟨seq, lit "svc", lit "evt", lit "null", lit "t", genesisHash, genesisHash⟩]
  sequence := seq
  chainMeta := {}
  sorted := List.pairwise_singleton ..

/-- A row was edited: the repaired chain has its receipts, and is exported. -/
theorem repair_law_edited : ∃ result, (repair counting plainRepair bareCall (oneRow 1)).1 =
    .ok result ∧ result.repaired = true ∧
    Exports counting (fun _ => []) (repair counting plainRepair bareCall (oneRow 1)).2.rows ∧
    Receipts counting (repair counting plainRepair bareCall (oneRow 1)).2.rows := by
  have hrepaired :
      ((repair counting plainRepair bareCall (oneRow 1)).1.toOption.map RepairResult.repaired) =
      some true := by
    decide +kernel
  obtain ⟨result, hresult, hflag⟩ := Option.map_eq_some_iff.mp hrepaired
  rw [toOption_eq_some] at hresult
  have hlaw :=
    (repair_law counting_width (fun _ => []) plainRepair bareCall (oneRow 1)).2 result hresult hflag
  have hgapless : Gapless (oneRow 1) := ⟨⟨rfl, trivial⟩, by decide⟩
  exact ⟨result, hresult, hflag, hlaw.2.1.mpr hgapless, hlaw.2.2 hgapless⟩

/-- The row before was deleted: a repair reports success, the receipt of the record is refused, and
so is the export. -/
theorem repaired_unusable : ¬∀ (P : Platform), (∀ b, (P.sha256 b).length = 32) →
    ∀ env call db result, (repair P env call db).1 = .ok result → result.repaired = true →
      Receipts P (repair P env call db).2.rows ∧
      Exports P (fun _ => []) (repair P env call db).2.rows := by
  intro h
  have hrepaired :
      ((repair counting plainRepair bareCall (oneRow 2)).1.toOption.map RepairResult.repaired) =
      some true := by
    decide +kernel
  obtain ⟨result, hresult, hflag⟩ := Option.map_eq_some_iff.mp hrepaired
  rw [toOption_eq_some] at hresult
  obtain ⟨hreceipts, -⟩ :=
    h counting counting_width plainRepair bareCall (oneRow 2) result hresult hflag
  -- `records[seq - 1]` is the row of the repair
  have hrefused : ((repair counting plainRepair bareCall (oneRow 2)).2.rows.head?.bind fun r =>
      ((chainInclusionProof counting (repair counting plainRepair bareCall (oneRow 2)).2.rows
        r.seq).bind fun proof =>
        chainVerifyInclusion counting (repair counting plainRepair bareCall (oneRow 2)).2.rows proof
          none).toOption)
      = some false := by decide +kernel
  obtain ⟨r, hr, hbad⟩ := Option.bind_eq_some_iff.mp hrefused
  obtain ⟨proof, hproof, hverify⟩ := hreceipts r (List.mem_of_mem_head? hr)
  rw [toOption_eq_some, hproof, Except.bind, hverify] at hbad
  cases hbad

end

end Ledger
