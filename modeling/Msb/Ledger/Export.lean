import Msb.Ledger.Repair
import Msb.Ledger.TamperEvidence
import Msb.Ledger.V2Append

/-!
# The export of the first chain

`audit_v1_export.py`: the rows of the chain, verified once more, go to a file of JSON lines, and a
manifest says what is in the file. The file holds another text of a record than the one that was
hashed.

* `exportRows_ok_iff` — the exporter accepts what the verifier of the chain accepts, under the
  numbers 1, 2, 3
* `readLines_exportText` — the file is read as the records
* `export_law` — what a call that returns has seen and written, and what a call that raises leaves
* `export_identifies` — the digest in the manifest tells the rows apart
* `export_grows` — the export of a chain that grew begins with the export of the chain before
-/

namespace Ledger

open Py HashChain

/-! ## The code -/

/-- What one call of `export_v1` meets. The paths are resolved. -/
structure ExportEnv where
  database : Str
  output : Str
  manifest : Str
  databaseExists : Bool
  /-- `_source_fingerprint`, before the rows are read and after they were verified. -/
  before : List (Str × Option (Int × Int × Int × Str))
  after : List (Str × Option (Int × Int × Int × Str))
  /-- The rows, or the `ExportError` of a database that cannot be opened or read. -/
  rows : Except PyError (List AuditRow)
  sourceSha256 : Str
  sourceSize : Int
  sourceMtimeNs : Int
  exportedAt : Str
  decodeError : Str → Str
  /-- The write of the file fails: it is still the old one. -/
  outputFault : Option PyError
  /-- The new file cannot be read for its digest. -/
  digestFault : Option PyError
  manifestFault : Option PyError

/-- The manifest of an export. -/
structure ExportManifest where
  sourceDb : Str
  sourceDbSha256 : Str
  sourceDbSize : Int
  sourceDbMtimeNs : Int
  firstSeq : Int
  lastSeq : Int
  recordCount : Nat
  firstPrevHash : Str
  headHash : Str
  outputPath : Str
  outputSha256 : Str
  exportedAt : Str

/-- The two files of an export. -/
structure ExportFiles where
  output : Option Bytes
  manifest : Option ExportManifest

section

variable (P : Platform)

/-- The record of a line. -/
def exportItems (r : AuditRecord) : List (PyKey × PyVal) :=
  [(.str (lit "schema_version"), .str (lit "msb.audit.v1-export")), (.str (lit "seq"), .int r.seq),
    (.str (lit "component"), .str r.component), (.str (lit "event_type"), .str r.eventType),
    (.str (lit "payload"), r.payload),
    (.str (lit "timestamp"), .str r.timestamp), (.str (lit "prev_hash"), .str r.prevHash),
    (.str (lit "record_hash"), .str r.recordHash)]

/-- What `_write_jsonl` writes. -/
def exportText : List AuditRecord → Except PyError Str
  | [] => .ok []
  | r :: records => do
    let line ← dumps P.keySort true plainStyle (.dict (exportItems r))
    let text ← exportText records
    .ok (line ++ [10] ++ text)

/-- The part of `export_v1` before the files are written. -/
def exportChecked (env : ExportEnv) : Except PyError (List AuditRecord × Str × Nat) := do
  raiseIf (env.output = env.database)
    (exportError (lit "output must not overwrite the source database"))
  raiseIf (env.manifest = env.database)
    (exportError (lit "manifest must not overwrite the source database"))
  raiseIf (env.output = env.manifest)
    (exportError (lit "output and manifest must be different files"))
  raiseIf (env.databaseExists = false)
    (exportError (lit "audit database does not exist: " ++ env.database))
  let rows ← env.rows
  let verified ← verifyExportRows P env.decodeError rows
  raiseIf (env.before ≠ env.after)
    (exportError (lit "source database changed during export; refusing partial evidence"))
  .ok verified

/-- The manifest of the records. -/
def exportManifest (env : ExportEnv) (records : List AuditRecord) (headHash : Str) (count : Nat)
    (outputSha256 : Str) : ExportManifest :=
  ⟨env.database, env.sourceSha256, env.sourceSize, env.sourceMtimeNs,
    (records.head?.map AuditRecord.seq).getD 0,
    (records.getLast?.map AuditRecord.seq).getD 0, count,
    (records.head?.map AuditRecord.prevHash).getD [], headHash, env.output,
    outputSha256, env.exportedAt⟩

/-- `export_v1`: what it returns or raises, and the files it leaves. Each file is replaced as a
whole. -/
def exportV1 (env : ExportEnv) (files : ExportFiles) :
    Except PyError ExportManifest × ExportFiles :=
  match exportChecked P env with
  | .error e => (.error e, files)
  | .ok (records, headHash, count) =>
    match exportText P records >>= encodeE, env.outputFault with
    | .error e, _ => (.error e, files)
    | .ok _, some e => (.error e, files)
    | .ok data, none =>
      let written := { files with output := some data }
      let manifest := exportManifest env records headHash count (P.hexdigest data)
      match env.digestFault, env.manifestFault with
      | some e, _ => (.error e, written)
      | none, some e => (.error e, written)
      | none, none => (.ok manifest, { written with manifest := some manifest })

end

/-- A file of JSON lines, read line by line. -/
def readLines : List Str → Except PyError (List PyVal)
  | [] => .ok []
  | line :: lines => do
    let v ← loads line
    let vs ← readLines lines
    .ok (v :: vs)

def readJsonLines (data : Bytes) : Except PyError (List PyVal) := textLines data >>= readLines

/-! ## What the exporter accepts -/

section

variable {P : Platform} {decodeError : Str → Str}

/-- A row that is exported is recomputed to its hash. -/
theorem exportRecord_eq_ok {row : AuditRow} {record : AuditRecord} :
    exportRecord P decodeError row = .ok record ↔
    (1 ≤ row.seq ∧ isHash (.str row.prevHash) = true ∧ isHash (.str row.recordHash) = true) ∧
    ∃ payload, loads row.payload = .ok payload ∧
      computeHash P row.prevHash row.component row.eventType payload row.timestamp =
        .ok row.recordHash ∧
      record = ⟨row.seq, row.component, row.eventType, payload, row.timestamp, row.prevHash,
          row.recordHash⟩ := by
  unfold exportRecord
  cases hload : loads row.payload with
  | error e => simp
  | ok payload =>
    simp only [bind_eq_ok, exists_unit, raiseIf_eq_ok, not_lt, Bool.not_eq_false, not_not,
      Except.ok.injEq, exists_eq_left']
    constructor
    · rintro ⟨hseq, hprev, hhash, expected, hcompute, rfl, rfl⟩
      exact ⟨⟨hseq, hprev, hhash⟩, hcompute, rfl⟩
    · rintro ⟨⟨hseq, hprev, hhash⟩, hcompute, rfl⟩
      exact ⟨hseq, hprev, hhash, _, hcompute, rfl, rfl⟩

/-- The records of the rows. -/
def RecordOf (row : AuditRow) (record : AuditRecord) : Prop :=
  ∃ payload, loads row.payload = .ok payload ∧
  record = ⟨row.seq, row.component, row.eventType, payload, row.timestamp, row.prevHash,
    row.recordHash⟩

/-- What the exporter asks of a chain. -/
structure Exportable (P : Platform) (k : Int) (g : Str) (rows : List AuditRow) : Prop where
  numbered : Numbered k rows
  linked : Linked AuditRow.prevHash AuditRow.recordHash g rows
  hashed : ∀ r ∈ rows, recomputed P r = .ok r.recordHash
  wellFormed : ∀ r ∈ rows, isHash (.str r.recordHash) = true

theorem exportable_cons {k : Int} {g : Str} {row : AuditRow} {rows : List AuditRow} :
    Exportable P k g (row :: rows) ↔
    (row.seq = k ∧ row.prevHash = g ∧ recomputed P row = .ok row.recordHash ∧
      isHash (.str row.recordHash) = true) ∧ Exportable P (k + 1) row.recordHash rows := by
  constructor
  · rintro ⟨⟨hseq, hnumbered⟩, ⟨hlink, hlinked⟩, hhashed, hwell⟩
    obtain ⟨hrow, hhashed⟩ := List.forall_mem_cons.mp hhashed
    obtain ⟨hhash, hwell⟩ := List.forall_mem_cons.mp hwell
    exact ⟨⟨hseq, hlink, hrow, hhash⟩, hnumbered, hlinked, hhashed, hwell⟩
  · rintro ⟨⟨hseq, hlink, hrow, hhash⟩, hnumbered, hlinked, hhashed, hwell⟩
    exact ⟨⟨hseq, hnumbered⟩, ⟨hlink, hlinked⟩, List.forall_mem_cons.mpr ⟨hrow, hhashed⟩,
      List.forall_mem_cons.mpr ⟨hhash, hwell⟩⟩

/-- With SHA-256 the hashes are as long as they should be. -/
theorem exportable_iff (hwidth : ∀ b, (P.sha256 b).length = 32) {rows : List AuditRow} :
    Exportable P 1 genesisHash rows ↔ Numbered 1 rows ∧ ValidRows P rows :=
  ⟨fun h => ⟨h.numbered, h.linked, h.hashed⟩,
    fun ⟨hnumbered, hvalid⟩ =>
    ⟨hnumbered, hvalid.linked, hvalid.hashed, fun r hr => isHash_recordHash hwidth
      (hvalid.hashed r hr)⟩⟩

/-- **The exporter accepts what the verifier accepts**, under the numbers from `k` on. -/
theorem exportRows_ok_iff {rows : List AuditRow} {k : Int} {g : Str} (hk : 1 ≤ k)
    (hg : isHash (.str g) = true) {records : List AuditRecord} : exportRows P decodeError k g rows =
    .ok records ↔ Exportable P k g rows ∧ List.Forall₂ RecordOf rows records := by
  induction rows generalizing k g records with
  | nil =>
    have hempty : Exportable P k g [] := ⟨trivial, trivial, by simp, by simp⟩
    simp [exportRows, hempty, eq_comm]
  | cons row rows ih =>
    simp only [exportRows, bind_eq_ok, exists_unit, raiseIf_eq_ok, not_not, exportRecord_eq_ok,
      exportable_cons]
    constructor
    · rintro ⟨record, ⟨⟨hpos, hprev, hhash⟩, payload, hload, hcompute, rfl⟩, hseq, hlink, records',
        hmore, heq⟩
      obtain rfl := Except.ok.inj heq
      obtain ⟨hrest, hrecords⟩ := (ih (by omega) hhash).mp hmore
      exact ⟨⟨⟨hseq, hlink, recomputed_eq_ok.mpr ⟨payload, hload, hcompute⟩, hhash⟩, hrest⟩,
        .cons ⟨payload, hload, rfl⟩ hrecords⟩
    · rintro ⟨⟨⟨hseq, hlink, hrow, hhash⟩, hrest⟩, hrecords⟩
      cases hrecords with
      | cons hrecord hrecords =>
      obtain ⟨payload, hload, rfl⟩ := hrecord
      obtain ⟨payload', hload', hcompute⟩ := recomputed_eq_ok.mp hrow
      obtain rfl : payload = payload' := Except.ok.inj (hload.symm.trans hload')
      exact ⟨_, ⟨⟨by omega, by rw [hlink]; exact hg, hhash⟩, payload, hload, hcompute, rfl⟩,
        hseq, hlink, _, (ih (by omega) hhash).mpr ⟨hrest, hrecords⟩, rfl⟩

/-- **`_verify_rows` accepts a chain that verifies, has a row, and counts up from 1**, and nothing
else. -/
theorem verifyExportRows_iff {rows : List AuditRow} {records : List AuditRecord} {head : Str}
    {count : Nat} : verifyExportRows P decodeError rows = .ok (records, head, count) ↔
      rows ≠ [] ∧ Exportable P 1 genesisHash rows ∧ List.Forall₂ RecordOf rows records ∧
      head = tip AuditRecord.recordHash genesisHash records ∧ count = rows.length := by
  have hgenesis : isHash (.str genesisHash) = true := by decide
  simp only [verifyExportRows, bind_eq_ok, exists_unit, raiseIf_eq_ok,
    exportRows_ok_iff le_rfl hgenesis]
  constructor
  · rintro ⟨records', ⟨hexport, hrecords⟩, hne, heq⟩
    obtain ⟨rfl, hrest⟩ := Prod.mk.inj (Except.ok.inj heq)
    obtain ⟨rfl, rfl⟩ := Prod.mk.inj hrest
    refine ⟨?_, hexport, hrecords, rfl, hrecords.length_eq.symm⟩
    rintro rfl
    cases hrecords
    exact hne rfl
  · rintro ⟨hne, hexport, hrecords, rfl, rfl⟩
    refine ⟨records, ⟨hexport, hrecords⟩, ?_, by rw [hrecords.length_eq]⟩
    intro hempty
    rw [List.isEmpty_iff] at hempty
    subst hempty
    cases hrecords
    exact hne rfl

end

/-! ## The text of the export -/

section

variable {P : Platform}

/-- The payload is what `loads` returns. -/
def AuditRecord.Loaded (r : AuditRecord) : Prop := Parsed r.payload

variable {r : AuditRecord} {records : List AuditRecord}

theorem parsed_exportItems (h : r.Loaded) : Parsed (.dict (exportItems r)) := by
  refine .dict ⟨?_, ?_⟩ (parsedItems_iff.mpr ?_)
  · simp [exportItems, PyKey.isStr]
  · show (["schema_version", "seq", "component", "event_type", "payload", "timestamp", "prev_hash",
      "record_hash"].map fun name => PyKey.str (lit name)).Nodup
    decide
  · simp only [exportItems, List.forall_mem_cons]
    exact ⟨.str _, .int _, .str _, .str _, h, .str _, .str _, .str _, by simp⟩

/-- The line of a record. -/
def exportLine (P : Platform) (r : AuditRecord) : Str :=
  render plainStyle (toJson P.keySort true (.dict (exportItems r)))

theorem exportText_eq (h : ∀ r ∈ records, r.Loaded) :
    exportText P records = .ok (records.flatMap fun r => exportLine P r ++ [10]) := by
  induction records with
  | nil => rfl
  | cons r records ih =>
    obtain ⟨hr, hrecords⟩ := List.forall_mem_cons.mp h
    simp [exportText, dumps, sortable_of_parsed _ (parsed_exportItems hr), ih hrecords, bind,
      Except.bind, exportLine]

theorem control_exportLine (r : AuditRecord) : ∀ c ∈ exportLine P r, 32 ≤ c.val :=
  noControl_render (by simp [plainStyle]) (by simp [plainStyle]) _

/-- A line of the export is read as the record. -/
theorem loads_exportLine (h : r.Loaded) :
    ∃ v, loads (exportLine P r ++ [10]) = .ok v ∧ Same v (.dict (exportItems r)) := by
  refine ⟨reload P.keySort (.dict (exportItems r)), ?_,
    same_reload P.keySort (parsed_exportItems h)⟩
  rw [loads, exportLine, parse_render_append plainStyle (fun hst => by cases hst) (by simp [isWs])]
  rfl

/-- **The text of the export is read as the records.** -/
theorem readLines_exportText (h : ∀ r ∈ records, r.Loaded) :
    ∃ vs, readLines (fileLines (records.flatMap fun r => exportLine P r ++ [10])) = .ok vs ∧
      List.Forall₂ (fun v r => Same v (.dict (exportItems r))) vs records := by
  induction records with
  | nil => exact ⟨[], rfl, .nil⟩
  | cons r records ih =>
    obtain ⟨hr, hrecords⟩ := List.forall_mem_cons.mp h
    obtain ⟨vs, hvs, hsame⟩ := ih hrecords
    obtain ⟨v, hv, hsamev⟩ := loads_exportLine (P := P) hr
    have hlf : 10 ∉ exportLine P r := fun hm => absurd (control_exportLine r 10 hm) (by decide)
    refine ⟨v :: vs, ?_, .cons hsamev hsame⟩
    rw [List.flatMap_cons, fileLines_ended (.inr (by simp)), fileLines_closed hlf,
      List.singleton_append]
    simp only [readLines, hv, hvs, bind, Except.bind]

/-- **What was hashed can be written**: the line of a record that is recomputed to its hash has a
UTF-8 form. -/
theorem encode_exportLine (hhash : isHash (.str r.recordHash) = true)
    (h : computeHash P r.prevHash r.component r.eventType r.payload r.timestamp =
      .ok r.recordHash) :
    ∃ b, encode (exportLine P r ++ [10]) = some b := by
  obtain ⟨-, b, hb, -⟩ := computeHash_eq_ok.mp h
  have htexts := (encode_render_isSome rfl _).mp (by rw [hb]; rfl)
  have hkey : ∀ s : Str, s.all (fun c => c.val < 128) = true → (encode s).isSome = true :=
    fun s hs => encode_isSome_of_ascii (ascii_of_all hs)
  have hvalue : ∀ t : Str, (encode t).isSome = true → ∀ s ∈ (toJson P.keySort true (.str t)).texts,
      (encode s).isSome = true := by
    intro t ht s hs
    obtain rfl : s = t := by simpa [toJson, Json.texts] using hs
    exact ht
  -- every text of the line is ASCII or was hashed
  have hcomponent := htexts r.component (by simp [recordTree, Json.texts, textsMembers])
  have heventType := htexts r.eventType (by simp [recordTree, Json.texts, textsMembers])
  have htimestamp := htexts r.timestamp (by simp [recordTree, Json.texts, textsMembers])
  have hprevHash := htexts r.prevHash (by simp [recordTree, Json.texts, textsMembers])
  have hpayload : ∀ s ∈ (toJson P.keySort true r.payload).texts, (encode s).isSome = true :=
    fun s hs => htexts s (by simp [recordTree, Json.texts, textsMembers, hs])
  have hitems : ∀ p ∈ exportItems r, (encode (keyText p.1)).isSome = true ∧
      ∀ s ∈ (toJson P.keySort true p.2).texts, (encode s).isSome = true := by
    simp only [exportItems, List.forall_mem_cons]
    exact ⟨⟨hkey _ (by decide), hvalue _ (hkey _ (by decide))⟩,
      ⟨hkey _ (by decide), by simp [toJson, Json.texts]⟩,
      ⟨hkey _ (by decide), hvalue _ hcomponent⟩, ⟨hkey _ (by decide), hvalue _ heventType⟩,
      ⟨hkey _ (by decide), hpayload⟩,
      ⟨hkey _ (by decide), hvalue _ htimestamp⟩, ⟨hkey _ (by decide), hvalue _ hprevHash⟩,
      ⟨hkey _ (by decide), hvalue _ (encode_isSome_of_ascii (ascii_of_isHash hhash))⟩, by simp⟩
  obtain ⟨a, ha⟩ : ∃ a, encode (exportLine P r) = some a := by
    refine Option.isSome_iff_exists.mp ((encode_render_isSome rfl _).mpr fun s hs => ?_)
    obtain ⟨q, hq, hqs⟩ := mem_texts_dict.mp hs
    rcases hqs with rfl | hqs
    · exact (hitems q hq).1
    · exact (hitems q hq).2 s hqs
  exact ⟨_, encode_append ha rfl⟩

/-- The text of verified records has a UTF-8 form. -/
theorem encode_exportText (hloaded : ∀ r ∈ records, r.Loaded)
    (hhash : ∀ r ∈ records, isHash (.str r.recordHash) = true ∧
      computeHash P r.prevHash r.component r.eventType r.payload r.timestamp = .ok r.recordHash) :
    ∃ data, (exportText P records >>= encodeE) = .ok data ∧
      encode (records.flatMap fun r => exportLine P r ++ [10]) = some data := by
  obtain ⟨data, hdata⟩ : ∃ data, encode (records.flatMap fun r => exportLine P r ++ [10]) =
      some data := by
    clear hloaded
    induction records with
    | nil => exact ⟨[], rfl⟩
    | cons r records ih =>
      obtain ⟨⟨hr, hcompute⟩, hrecords⟩ := List.forall_mem_cons.mp hhash
      obtain ⟨a, ha⟩ := encode_exportLine hr hcompute
      obtain ⟨b, hb⟩ := ih hrecords
      rw [List.flatMap_cons]
      exact ⟨_, encode_append ha hb⟩
  refine ⟨data, ?_, hdata⟩
  rw [exportText_eq hloaded]
  exact encodeE_eq_ok.mpr hdata

end

/-! ## A call -/

/-- Nothing but the rows can keep the call from returning. -/
structure ExportEnv.Ready (env : ExportEnv) : Prop where
  output_ne : env.output ≠ env.database
  manifest_ne : env.manifest ≠ env.database
  distinct : env.output ≠ env.manifest
  exist : env.databaseExists = true
  unchanged : env.before = env.after
  output : env.outputFault = none
  digest : env.digestFault = none
  manifest : env.manifestFault = none

section

variable {P : Platform} {env : ExportEnv} {files : ExportFiles} {rows : List AuditRow}

theorem exportChecked_iff (hrows : env.rows = .ok rows) {result : List AuditRecord × Str × Nat} :
    exportChecked P env = .ok result ↔
    (env.output ≠ env.database ∧ env.manifest ≠ env.database ∧ env.output ≠ env.manifest ∧
      env.databaseExists = true ∧ env.before = env.after) ∧
      verifyExportRows P env.decodeError rows = .ok result := by
  simp only [exportChecked, bind_eq_ok, exists_unit, raiseIf_eq_ok, hrows, Except.ok.injEq,
    exists_eq_left', Bool.not_eq_false, not_not, ne_eq]
  constructor
  · rintro ⟨h1, h2, h3, h4, verified, h5, h6, rfl⟩
    exact ⟨⟨h1, h2, h3, h4, h6⟩, h5⟩
  · rintro ⟨⟨h1, h2, h3, h4, h6⟩, h5⟩
    exact ⟨h1, h2, h3, h4, result, h5, h6, rfl⟩

variable {records : List AuditRecord}

/-- What the records of rows are that are exported. -/
theorem recordOf_hashed {k : Int} {g : Str} (hexport : Exportable P k g rows)
    (h : List.Forall₂ RecordOf rows records) : ∀ r ∈ records, r.Loaded ∧
    isHash (.str r.recordHash) = true ∧
      computeHash P r.prevHash r.component r.eventType r.payload r.timestamp =
      .ok r.recordHash := by
  induction h generalizing k g with
  | nil => simp
  | @cons row record rows records hrecord _ ih =>
    obtain ⟨⟨-, -, hrow, hhash⟩, hrest⟩ := exportable_cons.mp hexport
    refine List.forall_mem_cons.mpr ⟨?_, ih hrest⟩
    obtain ⟨payload, hload, rfl⟩ := hrecord
    obtain ⟨payload', hload', hcompute⟩ := recomputed_eq_ok.mp hrow
    obtain rfl : payload = payload' := Except.ok.inj (hload.symm.trans hload')
    exact ⟨parsed_of_loads hload, hhash, hcompute⟩

/-- What a call that returns has done. -/
theorem exportV1_eq_ok (hrows : env.rows = .ok rows) {m : ExportManifest} :
    (exportV1 P env files).1 = .ok m ↔
    env.Ready ∧ rows ≠ [] ∧ Exportable P 1 genesisHash rows ∧ ∃ records data,
      List.Forall₂ RecordOf rows records ∧
      encode (records.flatMap fun r => exportLine P r ++ [10]) = some data ∧
      m = exportManifest env records (tip AuditRecord.recordHash genesisHash records) rows.length
        (P.hexdigest data) ∧
      (exportV1 P env files).2 = ⟨some data, some m⟩ := by
  constructor
  · intro h
    cases hchecked : exportChecked P env with
    | error e =>
      simp only [exportV1, hchecked] at h
      cases h
    | ok result =>
      obtain ⟨records, head, count⟩ := result
      obtain ⟨⟨h1, h2, h3, h4, h5⟩, hverified⟩ := (exportChecked_iff hrows).mp hchecked
      obtain ⟨hne, hexport, hrecords, rfl, rfl⟩ := verifyExportRows_iff.mp hverified
      have hall := recordOf_hashed hexport hrecords
      obtain ⟨data, hdata, hencode⟩ := encode_exportText (fun r hr => (hall r hr).1) fun r hr =>
        (hall r hr).2
      simp only [exportV1, hchecked, hdata] at h ⊢
      cases hout : env.outputFault with
      | some e => simp [hout] at h
      | none =>
        cases hdig : env.digestFault with
        | some e => simp [hout, hdig] at h
        | none =>
          cases hman : env.manifestFault with
          | some e => simp [hout, hdig, hman] at h
          | none =>
            simp only [hout, hdig, hman] at h ⊢
            obtain rfl := Except.ok.inj h
            exact ⟨⟨h1, h2, h3, h4, h5, hout, hdig, hman⟩, hne, hexport, records, data, hrecords,
              hencode, rfl, rfl⟩
  · rintro ⟨hready, hne, hexport, records, data, hrecords, hencode, rfl, -⟩
    have hall := recordOf_hashed hexport hrecords
    obtain ⟨data', hdata, hencode'⟩ := encode_exportText (fun r hr => (hall r hr).1) fun r hr =>
      (hall r hr).2
    obtain rfl : data = data' := Option.some.inj (hencode.symm.trans hencode')
    have hverified : verifyExportRows P env.decodeError rows = .ok (records, _, _) :=
      verifyExportRows_iff.mpr ⟨hne, hexport, hrecords, rfl, rfl⟩
    have hchecked := (exportChecked_iff hrows).mpr
      ⟨⟨hready.output_ne, hready.manifest_ne, hready.distinct, hready.exist, hready.unchanged⟩,
        hverified⟩
    simp only [exportV1, hchecked, hdata, hready.output, hready.digest, hready.manifest]

/-- A call that raises leaves the manifest. -/
theorem exportV1_manifest {e : PyError} (h : (exportV1 P env files).1 = .error e) :
    (exportV1 P env files).2.manifest = files.manifest := by
  unfold exportV1 at h ⊢
  cases hchecked : exportChecked P env with
  | error e' => rfl
  | ok result =>
    simp only [hchecked] at h ⊢
    cases hdata : exportText P result.1 >>= encodeE with
    | error e' => rfl
    | ok data =>
      simp only [hdata] at h ⊢
      cases hout : env.outputFault with
      | some e' => rfl
      | none =>
        cases hdig : env.digestFault with
        | some e' => rfl
        | none =>
          cases hman : env.manifestFault with
          | some e' => rfl
          | none =>
            simp only [hout, hdig, hman] at h
            cases h

/-- The records of rows whose payloads parse are there, and are the only ones. -/
theorem exists_records (h : ∀ r ∈ rows, recomputed P r = .ok r.recordHash) :
    ∃ records, List.Forall₂ RecordOf rows records := by
  induction rows with
  | nil => exact ⟨[], .nil⟩
  | cons row rows ih =>
    obtain ⟨hrow, hrows⟩ := List.forall_mem_cons.mp h
    obtain ⟨payload, hload, -⟩ := recomputed_eq_ok.mp hrow
    obtain ⟨records, hrecords⟩ := ih hrows
    exact ⟨_ :: records, .cons ⟨payload, hload, rfl⟩ hrecords⟩

theorem recordOf_unique {records' : List AuditRecord} (h : List.Forall₂ RecordOf rows records)
    (h' : List.Forall₂ RecordOf rows records') : records = records' := by
  induction h generalizing records' with
  | nil => cases h'; rfl
  | @cons row record rows records hrecord _ ih =>
    cases h' with
    | cons hrecord' hrest =>
      obtain ⟨payload, hload, rfl⟩ := hrecord
      obtain ⟨payload', hload', rfl⟩ := hrecord'
      obtain rfl : payload = payload' := Except.ok.inj (hload.symm.trans hload')
      rw [ih hrest]

/-- **When a call returns**: nothing but the rows decides where the files and the database are as
they should be. Text that was hashed can always be written. -/
theorem exportV1_returns_iff (hwidth : ∀ b, (P.sha256 b).length = 32) (env : ExportEnv)
    (files : ExportFiles) (rows : List AuditRow) (hrows : env.rows = .ok rows) :
    (∃ m, (exportV1 P env files).1 = .ok m) ↔ env.Ready ∧ rows ≠ [] ∧ ValidRows P rows ∧
        Numbered 1 rows := by
  constructor
  · rintro ⟨m, h⟩
    obtain ⟨hready, hne, hexport, -⟩ := (exportV1_eq_ok hrows).mp h
    obtain ⟨hnumbered, hvalid⟩ := (exportable_iff hwidth).mp hexport
    exact ⟨hready, hne, hvalid, hnumbered⟩
  · rintro ⟨hready, hne, hvalid, hnumbered⟩
    have hexport := (exportable_iff hwidth).mpr ⟨hnumbered, hvalid⟩
    obtain ⟨records, hrecords⟩ := exists_records hvalid.hashed
    have hall := recordOf_hashed hexport hrecords
    obtain ⟨data, hdata, hencode⟩ := encode_exportText (fun r hr => (hall r hr).1) fun r hr =>
      (hall r hr).2
    have hverified : verifyExportRows P env.decodeError rows = .ok (records, _, _) :=
      verifyExportRows_iff.mpr ⟨hne, hexport, hrecords, rfl, rfl⟩
    have hchecked := (exportChecked_iff hrows).mpr
      ⟨⟨hready.output_ne, hready.manifest_ne, hready.distinct, hready.exist, hready.unchanged⟩,
        hverified⟩
    refine ⟨exportManifest env records (tip AuditRecord.recordHash genesisHash records) rows.length
      (P.hexdigest data), ?_⟩
    simp only [exportV1, hchecked, hdata, hready.output, hready.digest, hready.manifest]

/-- The export of the rows, read back. -/
theorem readJsonLines_export {data : Bytes} (hloaded : ∀ r ∈ records, r.Loaded)
    (hencode : encode (records.flatMap fun r => exportLine P r ++ [10]) = some data) :
    ∃ vs, readJsonLines data = .ok vs ∧ List.Forall₂ (fun v r => Same v (.dict (exportItems r))) vs
        records := by
  obtain ⟨vs, hvs, hsame⟩ := readLines_exportText (P := P) hloaded
  have hcr : 13 ∉ records.flatMap fun r => exportLine P r ++ [10] := by
    rw [List.mem_flatMap]
    rintro ⟨r, -, hm⟩
    rcases List.mem_append.mp hm with hm | hm
    · exact absurd (control_exportLine r 13 hm) (by decide)
    · exact absurd hm (by decide)
  refine ⟨vs, ?_, hsame⟩
  rw [readJsonLines, textLines, decode_encode hencode]
  simp only [universalNewlines_of_not_mem hcr]
  exact hvs

theorem head_numbered (h : Numbered 1 rows) (hne : rows ≠ []) :
    rows.head?.map AuditRow.seq = some 1 := by
  cases rows with
  | nil => exact absurd rfl hne
  | cons r rows => simp [h.1]

theorem getLast_numbered {k : Int} (h : Numbered k rows) (hne : rows ≠ []) :
    rows.getLast?.map AuditRow.seq = some (k + rows.length - 1) := by
  induction rows generalizing k with
  | nil => exact absurd rfl hne
  | cons r rows ih =>
    cases rows with
    | nil => simp [h.1]
    | cons r' rows =>
      rw [List.getLast?_cons_cons, ih h.2 (by simp)]
      simp only [List.length_cons]
      congr 1
      push_cast
      ring

/-- What the records of the rows have in common with them. -/
theorem recordOf_seq (h : List.Forall₂ RecordOf rows records) :
    records.map AuditRecord.seq = rows.map AuditRow.seq ∧ records.map AuditRecord.prevHash =
    rows.map AuditRow.prevHash ∧
      records.map AuditRecord.recordHash = rows.map AuditRow.recordHash := by
  induction h with
  | nil => simp
  | cons hrecord _ ih =>
    obtain ⟨payload, -, rfl⟩ := hrecord
    simp [ih]

/-- **What a call that returns has seen and written**: a verified chain without gaps, whose records
can be read back from the file, with a manifest that fits both. A call that raises leaves the
manifest as it was. -/
theorem export_law (env : ExportEnv) (files : ExportFiles) (rows : List AuditRow)
    (hrows : env.rows = .ok rows) :
    (∀ m, (exportV1 P env files).1 = .ok m → ∃ data records vs, (exportV1 P env files).2 =
      ⟨some data, some m⟩ ∧
      ValidRows P rows ∧ Numbered 1 rows ∧ List.Forall₂ RecordOf rows records ∧
      readJsonLines data = .ok vs ∧ List.Forall₂ (fun v r => Same v (.dict (exportItems r)))
        vs records ∧
      m.outputSha256 = P.hexdigest data ∧ m.recordCount = rows.length ∧ m.firstSeq = 1 ∧
        m.lastSeq = rows.length ∧
      m.firstPrevHash = genesisHash ∧ some m.headHash = rows.getLast?.map AuditRow.recordHash) ∧
    (∀ e, (exportV1 P env files).1 = .error e → (exportV1 P env files).2.manifest =
        files.manifest) := by
  refine ⟨fun m h => ?_, fun e => exportV1_manifest⟩
  obtain ⟨-, hne, hexport, records, data, hrecords, hencode, rfl, hfiles⟩ :=
    (exportV1_eq_ok hrows).mp h
  have hnumbered := hexport.numbered
  have hvalid : ValidRows P rows := ⟨hexport.linked, hexport.hashed⟩
  obtain ⟨vs, hvs, hsame⟩ :=
    readJsonLines_export (fun r hr => (recordOf_hashed hexport hrecords r hr).1) hencode
  obtain ⟨hseqs, hprevs, hhashes⟩ := recordOf_seq hrecords
  refine ⟨data, records, vs, hfiles, hvalid, hnumbered, hrecords, hvs, hsame, rfl, rfl, ?_,
    ?_, ?_, ?_⟩
  · have hhead := head_numbered hnumbered hne
    rw [← List.head?_map, ← hseqs, List.head?_map] at hhead
    simp [exportManifest, hhead]
  · have hlast := getLast_numbered hnumbered hne
    rw [← List.getLast?_map, ← hseqs, List.getLast?_map] at hlast
    simp [exportManifest, hlast]
  · have hhead : records.head?.map AuditRecord.prevHash = some genesisHash := by
      rw [← List.head?_map, hprevs, List.head?_map]
      cases rows with
      | nil => exact absurd rfl hne
      | cons r rows => simp [hvalid.linked.1]
    simp [exportManifest, hhead]
  · have hlast : records.getLast?.map AuditRecord.recordHash =
        rows.getLast?.map AuditRow.recordHash := by
      rw [← List.getLast?_map, hhashes, List.getLast?_map]
    obtain ⟨last, hlastrow⟩ : ∃ last, rows.getLast? = some last :=
      List.getLast?_isSome.mpr hne |> Option.isSome_iff_exists.mp
    show some (tip AuditRecord.recordHash genesisHash records) = _
    rw [tip_eq_getLast?, hlast, hlastrow]
    rfl

end

/-! One row, and a call that meets no fault. -/

/-- What the hash of the row is taken of. -/
def soundPreimage : Bytes :=
  (encode (render plainStyle
    (recordTree genesisHash (lit "svc") (lit "evt") (.obj []) (lit "t")))).getD []

/-- A row of an empty payload, written as the text. -/
def soundRow (P : Platform) (payload : Str) : AuditRow :=
  ⟨1, lit "svc", lit "evt", payload, lit "t", genesisHash, P.hexdigest soundPreimage⟩

def soundExport (rows : List AuditRow) : ExportEnv :=
  ⟨lit "chain.db", lit "out.jsonl", lit "manifest.json", true, [], [], .ok rows, [], 0, 0, lit "t",
    fun _ => [], none, none, none⟩

def noFiles : ExportFiles := ⟨none, none⟩

theorem ready_soundExport (rows : List AuditRow) : (soundExport rows).Ready := by
  refine ⟨?_, ?_, ?_, rfl, rfl, rfl, rfl, rfl⟩
  all_goals simp only [soundExport]; decide

variable {payload : Str}

theorem recomputed_soundRow {P : Platform} (hsort : P.keySort = KeySort.insertion)
    (hload : loads payload = .ok (.dict [])) :
    recomputed P (soundRow P payload) = .ok (soundRow P payload).recordHash := by
  have hencode :
    encode (render plainStyle (recordTree genesisHash (lit "svc") (lit "evt") (.obj []) (lit "t")))
    = some soundPreimage := by decide +kernel
  refine recomputed_eq_ok.mpr ⟨.dict [], hload, computeHash_eq_ok.mpr ⟨rfl, soundPreimage, ?_, rfl⟩⟩
  rw [hsort]
  exact hencode

theorem exportable_soundRow {P : Platform} (hsort : P.keySort = KeySort.insertion)
    (hload : loads payload = .ok (.dict []))
    (hhash : isHash (.str (P.hexdigest soundPreimage)) = true) :
    Exportable P 1 genesisHash [soundRow P payload] :=
  exportable_cons.mpr ⟨⟨rfl, rfl, recomputed_soundRow hsort hload, hhash⟩, trivial,
    trivial, by simp, by simp⟩

/-- The record of the row, and the file of it. -/
def soundRecord (P : Platform) : AuditRecord :=
  ⟨1, lit "svc", lit "evt", .dict [], lit "t", genesisHash, P.hexdigest soundPreimage⟩

def soundData (P : Platform) : Bytes := (encode (exportLine P (soundRecord P) ++ [10])).getD []

/-- The call returns. -/
theorem exportV1_soundRow {P : Platform} (hsort : P.keySort = KeySort.insertion)
    (hload : loads payload = .ok (.dict []))
    (hhash : isHash (.str (P.hexdigest soundPreimage)) = true) :
    ∃ m, (exportV1 P (soundExport [soundRow P payload]) noFiles).1 = .ok m ∧
        m.outputSha256 = P.hexdigest (soundData P) := by
  have hexport := exportable_soundRow hsort hload hhash
  have hrecords : List.Forall₂ RecordOf [soundRow P payload] [soundRecord P] :=
    .cons ⟨.dict [], hload, rfl⟩ .nil
  have hall := recordOf_hashed hexport hrecords
  obtain ⟨data, hdata, hencode⟩ := encode_exportText (fun r hr => (hall r hr).1) fun r hr =>
    (hall r hr).2
  have hready := ready_soundExport [soundRow P payload]
  have hverified : verifyExportRows P (soundExport [soundRow P payload]).decodeError
      [soundRow P payload] = .ok ([soundRecord P], _, _) :=
    verifyExportRows_iff.mpr ⟨by simp, hexport, hrecords, rfl, rfl⟩
  have hchecked := (exportChecked_iff rfl).mpr
    ⟨⟨hready.output_ne, hready.manifest_ne, hready.distinct, hready.exist, hready.unchanged⟩,
      hverified⟩
  refine ⟨exportManifest (soundExport [soundRow P payload]) [soundRecord P]
    (tip AuditRecord.recordHash genesisHash [soundRecord P]) 1 (P.hexdigest data), ?_, ?_⟩
  · simp only [exportV1, hchecked, hdata, hready.output, hready.digest, hready.manifest]
    rfl
  · rw [List.flatMap_singleton] at hencode
    rw [soundData, hencode]
    rfl

theorem exportV1_returns_iff_soundRow :
    ∃ m, (exportV1 counting (soundExport [soundRow counting (lit "\x7b\x7d")]) noFiles).1 = .ok m :=
  (exportV1_returns_iff counting_width (soundExport [soundRow counting (lit "\x7b\x7d")]) noFiles
    _ rfl).mpr
    ⟨ready_soundExport _, by simp, ⟨⟨rfl, trivial⟩, by simpa using recomputed_soundRow rfl rfl⟩,
      rfl, trivial⟩

theorem export_law_soundRow : ∃ data m,
    (exportV1 counting (soundExport [soundRow counting (lit "\x7b\x7d")]) noFiles).2 =
    ⟨some data, some m⟩ ∧ m.recordCount = 1 := by
  have hhash : isHash (.str (counting.hexdigest soundPreimage)) = true :=
    isHash_hex (counting_width _)
  obtain ⟨m, hm, -⟩ :=
    exportV1_soundRow (P := counting) rfl
    (show loads (lit "\x7b\x7d") = .ok (.dict []) from rfl) hhash
  obtain ⟨data, records, vs, hfiles, -, -, -, -, -, -, hcount, -⟩ :=
    (export_law (soundExport [soundRow counting (lit "\x7b\x7d")]) noFiles _ rfl).1 m hm
  exact ⟨data, m, hfiles, hcount⟩

/-! ## Two exports -/

section

variable {P : Platform}

theorem nodup_exportItems (r : AuditRecord) : ((exportItems r).map Prod.fst).Nodup := by
  show (["schema_version", "seq", "component", "event_type", "payload", "timestamp", "prev_hash",
    "record_hash"].map fun name => PyKey.str (lit name)).Nodup
  decide

/-- The fields of two records that are written the same. -/
theorem same_of_exportItems {a b : AuditRecord}
    (h : Same (.dict (exportItems a)) (.dict (exportItems b))) :
    (a.seq = b.seq ∧ a.component = b.component ∧ a.eventType = b.eventType ∧
      a.timestamp = b.timestamp ∧ a.prevHash = b.prevHash ∧
      a.recordHash = b.recordHash) ∧ Same a.payload b.payload := by
  have hfield : ∀ {k : PyKey} {v w : PyVal}, (k, v) ∈ exportItems a → (k, w) ∈ exportItems b →
      Same v w := by
    intro k v w hv hw
    obtain ⟨w', hw', hsame⟩ := same_of_mem h hv
    obtain ⟨-, rfl⟩ := Prod.mk.inj (List.inj_on_of_nodup_map (nodup_exportItems b) hw' hw rfl)
    exact hsame
  have htext : ∀ {k : PyKey} {s t : Str}, (k, .str s) ∈ exportItems a →
      (k, .str t) ∈ exportItems b → s = t := by
    intro k s t hs ht
    cases hfield hs ht
    rfl
  have hint : ∀ {i j : Int}, Same (.int i) (.int j) → i = j := by
    intro i j hij
    cases hij
    rfl
  exact ⟨⟨hint (hfield (k := .str (lit "seq")) (by simp [exportItems]) (by simp [exportItems])),
    htext (k := .str (lit "component")) (by simp [exportItems]) (by simp [exportItems]),
    htext (k := .str (lit "event_type")) (by simp [exportItems]) (by simp [exportItems]),
    htext (k := .str (lit "timestamp")) (by simp [exportItems]) (by simp [exportItems]),
    htext (k := .str (lit "prev_hash")) (by simp [exportItems]) (by simp [exportItems]),
    htext (k := .str (lit "record_hash")) (by simp [exportItems]) (by simp [exportItems])⟩,
    hfield (k := .str (lit "payload")) (by simp [exportItems]) (by simp [exportItems])⟩

theorem fileLines_exportText (records : List AuditRecord) :
    fileLines (records.flatMap fun r => exportLine P r ++ [10]) = records.map fun r =>
    exportLine P r ++ [10] := by
  induction records with
  | nil => rfl
  | cons r records ih =>
    have hlf : 10 ∉ exportLine P r := fun hm => absurd (control_exportLine r 10 hm) (by decide)
    rw [List.flatMap_cons, fileLines_ended (.inr (by simp)), fileLines_closed hlf, ih]
    rfl

/-- The text tells the records apart. -/
theorem same_of_exportText {records records' : List AuditRecord} (hloaded : ∀ r ∈ records, r.Loaded)
    (hloaded' : ∀ r ∈ records', r.Loaded)
    (h : records.flatMap (fun r => exportLine P r ++ [10]) = records'.flatMap fun r =>
      exportLine P r ++ [10]) :
    List.Forall₂ (fun a b => Same (.dict (exportItems a)) (.dict (exportItems b))) records
        records' := by
  have hlines := congrArg fileLines h
  rw [fileLines_exportText, fileLines_exportText] at hlines
  clear h
  induction records generalizing records' with
  | nil =>
    obtain rfl := List.map_eq_nil_iff.mp hlines.symm
    exact .nil
  | cons r records ih =>
    cases records' with
    | nil => cases hlines
    | cons r' records' =>
      obtain ⟨hr, hrecords⟩ := List.forall_mem_cons.mp hloaded
      obtain ⟨hr', hrecords'⟩ := List.forall_mem_cons.mp hloaded'
      obtain ⟨hline, hlines⟩ := List.cons.inj hlines
      have htree := render_injective plainStyle rfl (List.append_cancel_right hline)
      exact .cons
        (same_of_toJson_eq P.keySort _ _ (parsed_exportItems hr) (parsed_exportItems hr') htree)
        (ih hrecords hrecords' hlines)

/-- **The digest in the manifest tells the rows apart**: two exports under one digest are of the
same rows, where the two texts that were hashed do not collide. -/
theorem export_identifies (env env' : ExportEnv) (files files' : ExportFiles)
    (rows rows' : List AuditRow)
    (hrows : env.rows = .ok rows) (hrows' : env'.rows = .ok rows') (m m' : ExportManifest)
    (h : (exportV1 P env files).1 = .ok m) (h' : (exportV1 P env' files').1 = .ok m')
    (hP : ∀ data data', (exportV1 P env files).2.output = some data →
      (exportV1 P env' files').2.output = some data' →
      P.sha256 data = P.sha256 data' → data = data')
    (hdigest : m.outputSha256 = m'.outputSha256) :
    List.Forall₂ (fun a b => a.seq = b.seq ∧ SameRow a b) rows rows' := by
  obtain ⟨-, -, hexport, records, data, hrecords, hencode, rfl, hfiles⟩ :=
    (exportV1_eq_ok hrows).mp h
  obtain ⟨-, -, hexport', records', data', hrecords', hencode', rfl, hfiles'⟩ :=
    (exportV1_eq_ok hrows').mp h'
  obtain rfl : data = data' := by
    refine hP data data' ?_ ?_ (hex_injective hdigest)
    · rw [hfiles]
    · rw [hfiles']
  clear hP hfiles hfiles'
  have hsame := same_of_exportText (fun r hr => (recordOf_hashed hexport hrecords r hr).1)
    (fun r hr => (recordOf_hashed hexport' hrecords' r hr).1) (encode_injective hencode hencode')
  clear hrows hrows' h h' hdigest hexport hexport' hencode hencode'
  induction hsame generalizing rows rows' with
  | nil =>
    cases hrecords
    cases hrecords'
    exact .nil
  | cons hab _ ih =>
    cases hrecords with
    | cons hrecord hrecords =>
    cases hrecords' with
    | cons hrecord' hrecords' =>
    obtain ⟨p, hload, rfl⟩ := hrecord
    obtain ⟨q, hload', rfl⟩ := hrecord'
    obtain ⟨⟨hseq, hcomponent, heventType, htimestamp, hprevHash, hrecordHash⟩, hpayload⟩ :=
      same_of_exportItems hab
    exact .cons ⟨hseq, hcomponent, heventType, ⟨p, q, hload, hload', hpayload⟩, htimestamp,
      hprevHash, hrecordHash⟩ (ih _ _ hrecords hrecords')

/-- The same payload in two texts. -/
theorem export_identifies_soundRow : List.Forall₂ (fun a b => a.seq = b.seq ∧ SameRow a b)
    [soundRow (.planted soundPreimage sampleDigest) (lit "\x7b\x7d")]
    [soundRow (.planted soundPreimage sampleDigest) (lit "\x7b \x7d")] := by
  have hP : Function.Injective (Platform.planted soundPreimage sampleDigest).sha256 :=
    injective_planted (by simp [sampleDigest])
  have hhash : isHash (.str ((Platform.planted soundPreimage sampleDigest).hexdigest soundPreimage))
      = true := by
    have hdigest : (Platform.planted soundPreimage sampleDigest).sha256 soundPreimage =
      sampleDigest := by simp [Platform.planted]
    rw [Platform.hexdigest, hdigest]
    exact isHash_hex (by simp [sampleDigest])
  obtain ⟨m, hm, hsha⟩ := exportV1_soundRow (P := Platform.planted soundPreimage sampleDigest) rfl
    (show loads (lit "\x7b\x7d") = .ok (.dict []) from rfl) hhash
  obtain ⟨m', hm', hsha'⟩ :=
    exportV1_soundRow (P := Platform.planted soundPreimage sampleDigest) rfl
    (show loads (lit "\x7b \x7d") = .ok (.dict []) from rfl) hhash
  exact export_identifies _ _ noFiles noFiles _ _ rfl rfl m m' hm hm' (fun _ _ _ _ h => hP h)
    (hsha.trans hsha'.symm)

/-! ## A chain that grows -/

/-- Appends leave the rows that are there. -/
theorem rows_prefix {s t : AppendState} {es : List AppendEvent}
    (h : Machine.run (appendStep P) s es = some t) : s.db.rows <+: t.db.rows := by
  refine Machine.run_rel (R := fun s t => s.db.rows <+: t.db.rows) (fun t => List.prefix_refl _)
    (fun t u v (htu : t.db.rows <+: u.db.rows) (huv : u.db.rows <+: v.db.rows) => htu.trans huv)
    (fun t e u hstep => ?_) h
  cases e with
  | enter env call =>
    rw [appendStep] at hstep
    split at hstep
    · obtain rfl := Option.some.inj hstep
      exact List.prefix_refl _
    · obtain rfl := Option.some.inj hstep
      exact List.prefix_refl _
  | write i timestamp =>
    rw [appendStep] at hstep
    split at hstep
    · cases hstep
    · next env call _ =>
      split at hstep
      · next record db hwrite =>
        obtain rfl := Option.some.inj hstep
        unfold writeRow at hwrite
        split at hwrite
        · cases hwrite
        · rw [(insertRow_spec hwrite).1]
          exact List.prefix_append _ _
      · obtain rfl := Option.some.inj hstep
        exact List.prefix_refl _

/-- **The export of a chain that grew begins with the export of the chain before**, whoever appended
and in whatever order. -/
theorem export_grows (s t : AppendState) (es : List AppendEvent)
    (hrun : Machine.run (appendStep P) s es = some t) (env env' : ExportEnv)
    (files files' : ExportFiles)
    (hrows : env.rows = .ok s.db.rows) (hrows' : env'.rows = .ok t.db.rows) (m m' : ExportManifest)
    (h : (exportV1 P env files).1 = .ok m) (h' : (exportV1 P env' files').1 = .ok m') :
    ∃ data more, (exportV1 P env files).2.output = some data ∧ (exportV1 P env' files').2.output =
        some (data ++ more) := by
  obtain ⟨-, -, -, records, data, hrecords, hencode, -, hfiles⟩ := (exportV1_eq_ok hrows).mp h
  obtain ⟨-, -, -, records', data', hrecords', hencode', -, hfiles'⟩ :=
    (exportV1_eq_ok hrows').mp h'
  obtain ⟨new, hnew⟩ := rows_prefix hrun
  rw [← hnew] at hrecords'
  have hold := List.forall₂_take s.db.rows.length hrecords'
  rw [List.take_left] at hold
  obtain rfl : records = records'.take s.db.rows.length := recordOf_unique hrecords hold
  obtain ⟨rest, hrest⟩ := List.take_prefix s.db.rows.length records'
  rw [← hrest, List.flatMap_append] at hencode'
  obtain ⟨more, hmore⟩ : ∃ more, encode (rest.flatMap fun r => exportLine P r ++ [10]) =
      some more :=
    Option.isSome_iff_exists.mp (encode_append_isSome.mp (by rw [hencode']; rfl)).2
  obtain rfl : data ++ more = data' :=
    Option.some.inj ((encode_append hencode hmore).symm.trans hencode')
  exact ⟨data, more, by rw [hfiles], by rw [hfiles']⟩

end

/-- One append, an export, one more append and another export. -/
theorem export_grows_once : ∃ s t, Machine.run (appendStep counting) AppendState.init
    (oneAppend (.dict [])) = some s ∧
    Machine.run (appendStep counting) s (oneAppend (.dict [])) = some t ∧ ∃ data more,
      (exportV1 counting (soundExport s.db.rows) noFiles).2.output = some data ∧
      (exportV1 counting (soundExport t.db.rows) noFiles).2.output = some (data ++ more) := by
  have hfirst :
    ((Machine.run (appendStep counting) AppendState.init (oneAppend (.dict []))).map fun s =>
      ((exportV1 counting (soundExport s.db.rows) noFiles).1.toOption.isSome,
        (Machine.run (appendStep counting) s (oneAppend (.dict []))).map fun t =>
          (exportV1 counting (soundExport t.db.rows) noFiles).1.toOption.isSome)) =
              some (true, some true) := by
    decide +kernel
  obtain ⟨s, hs, hpair⟩ := Option.map_eq_some_iff.mp hfirst
  obtain ⟨hexport, hsecond⟩ := Prod.mk.inj hpair
  obtain ⟨t, ht, hexport'⟩ := Option.map_eq_some_iff.mp hsecond
  obtain ⟨m, hm⟩ := Option.isSome_iff_exists.mp hexport
  obtain ⟨m', hm'⟩ := Option.isSome_iff_exists.mp hexport'
  exact ⟨s, t, hs, ht, export_grows s t _ ht (soundExport s.db.rows) (soundExport t.db.rows) noFiles
    noFiles rfl rfl m m' (toOption_eq_some.mp hm) (toOption_eq_some.mp hm')⟩

end Ledger
