import Msb.Infra.JsonTexts
import Msb.Ledger.Inclusion
import Msb.Ledger.V2Segment

/-!
# Appending to a segment

An append takes the hash of the canonical text of a record, writes another text of the record, and
the next append reads the file line by line. What it writes is read as the record again, so a
segment whose last line is ended stays one.

* `newRecord_spec` — the record of an append carries its own hash and follows the segment
* `jsonlRecord_recordLine` — the line of a record is read as the record
* `newLine_spec` — what an append that returns leaves
* `segment_law` — what a run of appends leaves
-/

namespace Ledger

open Py HashChain

/-! ## Appending -/

mutual

/-- No key comes twice in a dict of the value. -/
def distinctKeys : PyVal → Bool
  | .list xs | .tuple xs => distinctKeysElems xs
  | .dict items => decide (items.map Prod.fst).Nodup && distinctKeysItems items
  | _ => true

def distinctKeysElems : List PyVal → Bool
  | [] => true
  | x :: xs => distinctKeys x && distinctKeysElems xs

def distinctKeysItems : List (PyKey × PyVal) → Bool
  | [] => true
  | (_, v) :: items => distinctKeys v && distinctKeysItems items

end

theorem distinctKeysElems_eq : ∀ xs, distinctKeysElems xs = xs.all distinctKeys
  | [] => rfl
  | x :: xs => by rw [distinctKeysElems, distinctKeysElems_eq xs, List.all_cons]

theorem distinctKeysItems_eq : ∀ items, distinctKeysItems items = items.all fun p =>
    distinctKeys p.2
  | [] => rfl
  | (k, v) :: items => by rw [distinctKeysItems, distinctKeysItems_eq items, List.all_cons]

/-- What passes `_validate_value` is what `loads` can return. -/
theorem parsed_of_admits (v : PyVal) (h : admits v = true) (hd : distinctKeys v = true) :
    Parsed v := by
  induction v using PyVal.ind with
  | hnone => exact .none
  | hbool b => exact .bool b
  | hint i => exact .int i
  | hfloat f => exact .float f
  | hstr s => exact .str s
  | htuple xs _ => cases h
  | hlist xs ih =>
    rw [admits, admitsElems_eq, List.all_eq_true] at h
    rw [distinctKeys, distinctKeysElems_eq, List.all_eq_true] at hd
    exact .list (parsedElems_iff.mpr fun x hx => ih x hx (h x hx) (hd x hx))
  | hdict items ih =>
    simp only [admits, admitsItems_eq, List.all_eq_true, Bool.and_eq_true] at h
    simp only [distinctKeys, distinctKeysItems_eq, Bool.and_eq_true, decide_eq_true_eq,
      List.all_eq_true] at hd
    exact .dict ⟨fun p hp => (h p hp).1, hd.1⟩
      (parsedItems_iff.mpr fun p hp => ih p hp (h p hp).2 (hd.2 p hp))

/-- The values of a call are Python values: no dict has a key twice. -/
structure SegmentCall.Distinct (call : SegmentCall) : Prop where
  payload : distinctKeys call.payload = true
  authority : distinctKeys call.authority = true
  execution : distinctKeys call.execution = true
  verification : distinctKeys call.verification = true

section

variable {P : Platform} {T : V2Texts} {call : SegmentCall} {recordedAt initial : Str}
  {seq prevHash : PyVal}

theorem getItem_segmentRecord {key : Str} (hkey : key ≠ lit "record_hash") (hash : Str) :
    getItem (segmentRecord call recordedAt seq prevHash hash) key = getItem
    (segmentFields call recordedAt seq prevHash) key := by
  rw [getItem, segmentRecord, List.find?_append, getItem]
  simp [Ne.symm hkey]

theorem keys_segmentRecord (hash : Str) : (segmentRecord call recordedAt seq prevHash hash).map
    Prod.fst =
    ["schema_version", "record_type", "seq", "recorded_at", "component", "actor", "action",
      "authority", "execution",
      "verification", "payload", "environment_ref", "prev_hash", "record_hash"].map fun name =>
      .str (lit name) := rfl

theorem getItem_seq (hash : Str) :
    getItem (segmentRecord call recordedAt seq prevHash hash) (lit "seq") = some seq := by
  have hkeys : lit "schema_version" ≠ lit "seq" ∧ lit "record_type" ≠ lit "seq" := by decide
  simp [getItem, segmentRecord, segmentFields, hkeys]

theorem getItem_recordHash (hash : Str) :
    getItem (segmentRecord call recordedAt seq prevHash hash) (lit "record_hash") =
    some (.str hash) := by
  rw [getItem, segmentRecord, List.find?_append, List.find?_eq_none.mpr]
  · simp
  · simp only [segmentFields, List.forall_mem_cons, decide_eq_true_eq, PyKey.str.injEq]
    refine ⟨?_, ?_, ?_, ?_, ?_, ?_, ?_, ?_, ?_, ?_, ?_, ?_, ?_, by simp⟩
    all_goals decide

theorem getItem_prevHash (hash : Str) :
    getItem (segmentRecord call recordedAt seq prevHash hash) (lit "prev_hash") =
    some prevHash := by
  rw [getItem_segmentRecord (by decide), getItem,
    show segmentFields call recordedAt seq prevHash =
    (segmentFields call recordedAt seq prevHash).dropLast ++
      [(.str (lit "prev_hash"), prevHash)] from rfl, List.find?_append, List.find?_eq_none.mpr]
  · simp
  · simp only [segmentFields, List.dropLast_cons_cons, List.dropLast_singleton,
      List.forall_mem_cons, decide_eq_true_eq, PyKey.str.injEq]
    refine ⟨?_, ?_, ?_, ?_, ?_, ?_, ?_, ?_, ?_, ?_, ?_, ?_, by simp⟩
    all_goals decide

theorem unhashed_segmentRecord (hash : Str) :
    unhashed (segmentRecord call recordedAt seq prevHash hash) = segmentFields call recordedAt seq
    prevHash := by
  have hfields : ∀ p ∈ segmentFields call recordedAt seq prevHash,
      p.1 ≠ .str (lit "record_hash") := by
    simp only [segmentFields, List.forall_mem_cons, ne_eq, PyKey.str.injEq]
    refine ⟨?_, ?_, ?_, ?_, ?_, ?_, ?_, ?_, ?_, ?_, ?_, ?_, ?_, by simp⟩
    all_goals decide
  rw [unhashed, segmentRecord, List.filter_append, List.filter_eq_self.mpr (by simpa using hfields)]
  simp

/-- The shape of a record does not depend on its hash. -/
theorem shaped_segmentRecord {hash hash' : Str}
    (h : Shaped (segmentRecord call recordedAt seq prevHash hash))
    (hhash : isHash (.str hash') = true) :
    Shaped (segmentRecord call recordedAt seq prevHash hash') := by
  have hitem : ∀ key : Str, key ≠ lit "record_hash" →
    getItem (segmentRecord call recordedAt seq prevHash hash') key =
      getItem (segmentRecord call recordedAt seq prevHash hash) key :=
    fun key hkey => (getItem_segmentRecord hkey _).trans (getItem_segmentRecord hkey _).symm
  have hfield : ∀ name : String, lit name ≠ lit "record_hash" →
    field (segmentRecord call recordedAt seq prevHash hash') name =
      field (segmentRecord call recordedAt seq prevHash hash) name := by
    intro name hname
    rw [field, field, hitem _ hname]
  refine ⟨fun name hname => ?_, fun p hp => ?_, ?_, ?_, ?_, ?_, fun name hname => ?_,
    fun name hname => ?_⟩
  · by_cases hkey : name = lit "record_hash"
    · rw [hkey, getItem_recordHash]
      rfl
    · rw [hitem name hkey]
      exact h.fields name hname
  · have hmem : p.1 ∈ (segmentRecord call recordedAt seq prevHash hash).map Prod.fst := by
      rw [keys_segmentRecord hash, ← @keys_segmentRecord call recordedAt seq prevHash hash']
      exact List.mem_map_of_mem hp
    obtain ⟨q, hq, hqp⟩ := List.mem_map.mp hmem
    rw [← hqp]
    exact h.only q hq
  · rw [hfield _ (by decide)]
    exact h.schema
  · rw [hfield _ (by decide)]
    exact h.seq
  · rw [hfield _ (by decide)]
    exact h.prevHash
  · rw [field, getItem_recordHash]
    exact hhash
  · rw [hfield _ (by revert name; decide)]
    exact h.texts name hname
  · rw [hfield _ (by revert name; decide)]
    exact h.objects name hname

end

/-! ## The new record -/

section

variable {P : Platform} {T : V2Texts} {call : SegmentCall} {initial recordedAt : Str}
  {data line : Bytes} {lines : List Str} {records : List V2Record} {record : V2Record}

/-- The numbers of a linked segment count its records. -/
theorem tip_number {g : PyVal} (h : Linked prevMark mark (g, 0) records) :
    (tip mark (g, 0) records).2 = records.length := by
  induction records using List.reverseRecOn with
  | nil => rfl
  | append_singleton rs r ih =>
    obtain ⟨hrs, hr⟩ := (linked_concat _ _ _ _ _).mp h
    have hnum : (prevMark r).2 = rs.length := by rw [hr, ih hrs]
    have hmark : (mark r).2 = (prevMark r).2 + 1 := by simp [mark, prevMark]
    rw [tip_concat, hmark, hnum, List.length_append]
    simp

/-- The next record is linked to the last one. -/
theorem nextLink_spec (hseg : Segment P T initial data lines records) : ∃ p : Str,
    nextLink initial records = .ok (.int (records.length + 1), .str p) ∧
      tip mark (.str initial, 0) records = (.str p, (records.length : Int)) := by
  have hnum := tip_number hseg.linked
  rcases List.eq_nil_or_concat records with rfl | ⟨rs, last, rfl⟩
  · exact ⟨initial, rfl, rfl⟩
  · obtain ⟨-, hshaped, hash, hget, -⟩ := hseg.sealed last (by simp)
    obtain ⟨seq, hseq, -⟩ := isPositiveInt_iff.mp hshaped.seq
    have hgetseq : getItem last (lit "seq") = some (.int seq) := getItem_of_field hseq (by simp)
    have hhash : field last "record_hash" = .str hash := by simp [field, hget]
    have hmark : mark last = (.str hash, seq) := by simp only [mark, seqOf, hseq, hhash]
    rw [List.concat_eq_append] at hnum ⊢
    rw [tip_concat, hmark] at hnum ⊢
    obtain rfl : seq = (rs ++ [last]).length := hnum
    refine ⟨hash, ?_, rfl⟩
    simp [nextLink, recordItem, hgetseq, hget, plusOne, bind, Except.bind]

/-- What the hash of a record is computed over can be written and read. -/
theorem parsed_segmentRecord {seq : Int} {p hash : Str} (hcall : call.Distinct)
    (hadmits : admits (.dict (segmentFields call recordedAt (.int seq) (.str p))) = true) :
    Parsed (.dict (segmentRecord call recordedAt (.int seq) (.str p) hash)) := by
  refine parsed_of_admits _ ?_ ?_
  · rw [admits, admitsItems_eq] at hadmits ⊢
    rw [segmentRecord, List.all_append, hadmits]
    rfl
  · have hkeys : ((segmentRecord call recordedAt (.int seq) (.str p) hash).map Prod.fst).Nodup := by
      rw [keys_segmentRecord]
      decide
    rw [distinctKeys, decide_eq_true hkeys, Bool.true_and, distinctKeysItems_eq]
    simp [segmentRecord, segmentFields, distinctKeys, hcall.payload, hcall.authority,
      hcall.execution, hcall.verification]

/-- **The record of an append carries its own hash and follows the segment.** -/
theorem newRecord_spec (hwidth : ∀ b, (P.sha256 b).length = 32)
    (hseg : Segment P T initial data lines records)
    (hcall : call.Distinct) (h : newRecord P T initial recordedAt data call = .ok record) :
    Sealed P record ∧ prevMark record = tip mark (.str initial, 0) records ∧
        seqOf record = records.length + 1 := by
  obtain ⟨p, hnext, htip⟩ := nextLink_spec hseg
  simp only [newRecord, hseg.records, hnext, bind, Except.bind] at h
  obtain ⟨hash, hhash, h⟩ := bind_eq_ok.mp h
  obtain rfl := Except.ok.inj h
  obtain ⟨preimage, hpre, hsha⟩ := bind_eq_ok.mp hhash
  obtain ⟨hshaped, rfl⟩ := recordPreimage_iff.mp hpre
  rw [unhashed_segmentRecord] at hsha
  have hhex : isHash (.str hash) = true := by
    obtain ⟨text, -, hrest⟩ := bind_eq_ok.mp hsha
    obtain ⟨b, -, hb⟩ := bind_eq_ok.mp hrest
    obtain rfl := Except.ok.inj hb
    exact isHash_hex (hwidth b)
  have hadmits : admits (.dict (segmentFields call recordedAt (.int (records.length + 1)) (.str p)))
      = true := by
    obtain ⟨text, htext, -⟩ := bind_eq_ok.mp hsha
    obtain ⟨u, hu, -⟩ := bind_eq_ok.mp htext
    exact (validateValue_iff _ _).mp hu
  have hseq : seqOf (segmentRecord call recordedAt (.int (records.length + 1)) (.str p) hash) =
      records.length + 1 := by
    rw [seqOf, field, getItem_seq]
    rfl
  refine ⟨⟨parsed_segmentRecord hcall hadmits, shaped_segmentRecord hshaped hhex, hash,
    getItem_recordHash hash, ?_⟩, ?_, hseq⟩
  · rw [unhashed_segmentRecord]
    exact hsha
  · rw [htip, prevMark, hseq, field, getItem_prevHash]
    simp

/-! ## The line of a record -/

/-- The text of a record in the file. -/
def recordLine (P : Platform) (record : V2Record) : Str :=
  render plainStyle (toJson P.keySort true (.dict record))

theorem control_recordLine : ∀ c ∈ recordLine P record, 32 ≤ c.val :=
  noControl_render (by simp [plainStyle]) (by simp [plainStyle]) _

theorem braces_recordLine (P : Platform) (record : V2Record) :
    ∃ s, recordLine P record = 123 :: s ++ [125] :=
  render_obj_ends plainStyle _

theorem not_mem_recordLine {c : CodePoint} (hc : c.val < 32) : c ∉ recordLine P record :=
  fun h => by
  have := control_recordLine c h
  omega

/-- **The line of a record is read as the record**, the newline there or not. -/
theorem jsonlRecord_recordLine (hparsed : Parsed (.dict record)) (n : Nat) {ws : Str}
    (hws : ∀ c ∈ ws, isWs c = true) :
    jsonlRecord T n (recordLine P record ++ ws) = .ok (reread P.keySort record) := by
  have hparse : parse (recordLine P record ++ ws) = some (toJson P.keySort true (.dict record)) :=
    parse_render_append plainStyle (fun h => by cases h) hws
  have hkeys :=
    duplicateKey?_of_increasing _ (stable_of_strKeyed P.keySort _ (strKeyed_of_parsed _ hparsed))
  have hload : loadsStrict T (recordLine P record ++ ws) =
      .ok (reload P.keySort (.dict record)) := by
    rw [loadsStrict, hparse]
    simp only [hkeys]
    rfl
  have hblank : strip (recordLine P record ++ ws) ≠ [] := by
    obtain ⟨s, hs⟩ := braces_recordLine P record
    exact strip_ne_nil (c := 123) (by rw [hs]; simp) (by decide)
  cases hparsed with
  | dict hd _ =>
  rw [jsonlRecord, hload, (reread_spec (S := P.keySort) hd).1, raiseIf, if_neg hblank]
  rfl

/-- What an append writes. -/
theorem newLine_iff (hwidth : ∀ b, (P.sha256 b).length = 32)
    (hseg : Segment P T initial data lines records)
    (hcall : call.Distinct) : newLine P T initial recordedAt data call = .ok (record, line) ↔
      newRecord P T initial recordedAt data call = .ok record ∧
      encode (recordLine P record ++ [10]) = some line := by
  simp only [newLine, bind_eq_ok, encodeE_eq_ok]
  constructor
  · rintro ⟨r, hr, text, htext, b, hb, heq⟩
    obtain ⟨rfl, rfl⟩ := Prod.mk.inj (Except.ok.inj heq)
    rw [dumps] at htext
    split_ifs at htext
    obtain rfl := Except.ok.inj htext
    exact ⟨hr, hb⟩
  · rintro ⟨hr, hb⟩
    have hparsed := (newRecord_spec hwidth hseg hcall hr).1.parsed
    exact ⟨record, hr, recordLine P record, by simp [dumps, sortable_of_parsed _ hparsed,
      recordLine], line, hb, rfl⟩

theorem line_ne_nil (hwidth : ∀ b, (P.sha256 b).length = 32)
    (hseg : Segment P T initial data lines records) (hcall : call.Distinct)
    (h : newLine P T initial recordedAt data call = .ok (record, line)) : line ≠ [] := by
  rintro rfl
  have hencode := ((newLine_iff hwidth hseg hcall).mp h).2
  have hnil : recordLine P record ++ [10] = [] := encode_injective hencode rfl
  simp at hnil

/-! ## Lines of a file -/

/-- The last line of a file is ended. -/
def Closed (data : Bytes) : Prop := ∃ text, decode data = some text ∧ Ended (universalNewlines text)

theorem closed_nil : Closed [] := ⟨[], rfl, .inl rfl⟩

theorem decode_append {text s : Str} {b : Bytes} (htext : decode data = some text)
    (hb : encode s = some b) :
    decode (data ++ b) = some (text ++ s) := decode_encode (encode_append (encode_decode htext) hb)

/-- The lines of a file that more was written to, no line end at its front. -/
theorem textLines_append {text s : Str} {b : Bytes} (htext : decode data = some text)
    (hb : encode s = some b)
    (hfirst : ∀ c ∈ s.head?, c ≠ 10) (hcr : 13 ∉ s) :
    textLines (data ++ b) = .ok (fileLines (universalNewlines text ++ s)) := by
  rw [textLines, decode_append htext hb]
  simp only [universalNewlines_append hfirst, universalNewlines_of_not_mem hcr]

theorem textLines_eq_ok : textLines data = .ok lines ↔
    ∃ text, decode data = some text ∧ fileLines (universalNewlines text) = lines := by
  unfold textLines
  cases decode data <;> simp

theorem jsonlRecords_append {n : Nat} {ls ms : List Str} {xs : List V2Record}
    (h : jsonlRecords T n ls = .ok xs) :
    jsonlRecords T n (ls ++ ms) = (jsonlRecords T (n + ls.length) ms).map (xs ++ ·) := by
  induction ls generalizing n xs with
  | nil =>
    obtain rfl := Except.ok.inj h
    show jsonlRecords T n ms = (jsonlRecords T n ms).map ([] ++ ·)
    cases jsonlRecords T n ms <;> rfl
  | cons l ls ih =>
    obtain ⟨x, hx, h⟩ := bind_eq_ok.mp h
    obtain ⟨ys, hys, h⟩ := bind_eq_ok.mp h
    obtain rfl := Except.ok.inj h
    rw [List.cons_append, jsonlRecords, hx, List.length_cons, ← Nat.add_assoc, Nat.add_right_comm]
    show (jsonlRecords T (n + 1) (ls ++ ms) >>= _) = _
    rw [ih hys]
    cases jsonlRecords T (n + 1 + ls.length) ms <;> rfl

/-! ## An append -/

/-- The links of a record are read as they were. -/
theorem Sealed.marks (h : Sealed P record) : mark (Ledger.reread P.keySort record) = mark record ∧
    prevMark (Ledger.reread P.keySort record) = prevMark record := by
  obtain ⟨hparsed, hshaped, -⟩ := h
  cases hparsed with
  | dict hd _ =>
  have hfield : ∀ name : String, lit name ∈ requiredFields →
      field (Ledger.reread P.keySort record) name = reload P.keySort (field record name) :=
    fun name hname => field_reread hd (hshaped.fields _ hname)
  obtain ⟨seq, hseq, -⟩ := isPositiveInt_iff.mp hshaped.seq
  have hseq' : field (Ledger.reread P.keySort record) "seq" = .int seq := by
    rw [hfield _ (by decide), hseq]
    rfl
  have htext : ∀ v : PyVal, isHash v = true → reload P.keySort v = v := by
    intro v hv
    cases v <;> first | rfl | cases hv
  have hhash : field (Ledger.reread P.keySort record) "record_hash" =
      field record "record_hash" := by
    rw [hfield _ (by decide), htext _ hshaped.recordHash]
  have hprev : field (Ledger.reread P.keySort record) "prev_hash" = field record "prev_hash" := by
    rw [hfield _ (by decide), htext _ hshaped.prevHash]
  simp only [mark, prevMark, seqOf, hseq, hseq', hhash, hprev, and_self]

/-- A line with the text of the next record continues a segment. -/
theorem Segment.extend {line' : Str} {b : Bytes} (hseg : Segment P T initial data lines records)
    (hsealed : Sealed P record)
    (hprev : prevMark record = tip mark (.str initial, 0) records)
    (hsplit : textLines (data ++ b) = .ok (lines ++ [line']))
    (hread : ∀ n, jsonlRecord T n line' = .ok (reread P.keySort record)) :
    Segment P T initial (data ++ b) (lines ++ [line']) (records ++ [reread P.keySort record]) := by
  refine ⟨hsplit, ?_, ?_, ?_⟩
  · have hlast : jsonlRecords T (1 + lines.length) [line'] = .ok [reread P.keySort record] := by
      simp [jsonlRecords, hread, bind, Except.bind]
    rw [jsonlRecords_append hseg.read, hlast]
    rfl
  · intro r hr
    rcases List.mem_append.mp hr with hr | hr
    · exact hseg.sealed r hr
    · rw [List.mem_singleton.mp hr]
      exact hsealed.reread
  · exact (linked_concat _ _ _ _ _).mpr ⟨hseg.linked, hsealed.marks.2.trans hprev⟩

/-- The line of the next record, behind a segment whose last line is ended. -/
theorem Segment.extend_line (hseg : Segment P T initial data lines records) (hclosed : Closed data)
    (hsealed : Sealed P record)
    (hprev : prevMark record = tip mark (.str initial, 0) records)
    (hline : encode (recordLine P record ++ [10]) = some line) :
    Segment P T initial (data ++ line) (lines ++ [recordLine P record ++ [10]])
      (records ++ [reread P.keySort record]) ∧ Closed (data ++ line) := by
  obtain ⟨text, htext, hended⟩ := hclosed
  obtain ⟨s, hs⟩ := braces_recordLine P record
  have hfirst : ∀ c ∈ (recordLine P record ++ [10]).head?, c ≠ 10 := by
    rw [hs]
    intro c hc
    obtain rfl : 123 = c := by simpa using hc
    decide
  have hcr : 13 ∉ recordLine P record ++ [10] := by
    rw [List.mem_append, not_or]
    exact ⟨not_mem_recordLine (by decide), by decide⟩
  have hlf : 10 ∉ recordLine P record := not_mem_recordLine (by decide)
  have hlines : fileLines (universalNewlines text) = lines := by
    obtain ⟨text', htext', hlines⟩ := textLines_eq_ok.mp hseg.split
    obtain rfl : text = text' := Option.some.inj (htext.symm.trans htext')
    exact hlines
  have hsplit := textLines_append htext hline hfirst hcr
  rw [fileLines_ended hended, hlines, fileLines_closed hlf] at hsplit
  refine ⟨hseg.extend hsealed hprev hsplit fun n => ?_, _, decode_append htext hline, ?_⟩
  · exact jsonlRecord_recordLine hsealed.parsed n (by simp [isWs])
  · rw [universalNewlines_append hfirst, universalNewlines_of_not_mem hcr]
    exact .inr (by simp)

/-- **An append to a segment whose last line is ended**: the segment goes on with the record that is
returned, its last line ended again. -/
theorem newLine_spec (hwidth : ∀ b, (P.sha256 b).length = 32)
    (hseg : Segment P T initial data lines records)
    (hclosed : Closed data) (hcall : call.Distinct)
    (h : newLine P T initial recordedAt data call = .ok (record, line)) :
    Segment P T initial (data ++ line) (lines ++ [recordLine P record ++ [10]])
      (records ++ [reread P.keySort record]) ∧ Closed (data ++ line) := by
  obtain ⟨hrecord, hline⟩ := (newLine_iff hwidth hseg hcall).mp h
  obtain ⟨hsealed, hprev, -⟩ := newRecord_spec hwidth hseg hcall hrecord
  exact hseg.extend_line hclosed hsealed hprev hline

end

/-! ## A run of appends -/

section

variable (P : Platform) (T : V2Texts) (initial : Str)

/-- The file, and the records that were returned so far, after one more append. -/
def segmentStep (st : Bytes × List V2Record) (call : SegmentEnv × SegmentCall) :
    Bytes × List V2Record :=
  match segmentAppend P T initial call.1 st.1 call.2 with
  | (.ok record, data) => (data, st.2 ++ [record])
  | (.error _, data) => (data, st.2)

/-- The appends of whoever holds the lock, in the order in which they hold it. -/
def segmentRun (st : Bytes × List V2Record) (calls : List (SegmentEnv × SegmentCall)) :
    Bytes × List V2Record :=
  calls.foldl (segmentStep P T initial) st

end

/-- Nothing fails once a byte is in the file. -/
def SegmentEnv.Unwritten (env : SegmentEnv) : Prop := ∀ f ∈ env.fault, f.1 = 0

/-- The file holds the records that were returned. -/
structure Holds (P : Platform) (T : V2Texts) (initial : Str) (st : Bytes × List V2Record)
    (read : List V2Record) : Prop where
  segment : ∃ lines, Segment P T initial st.1 lines read
  closed : Closed st.1
  same : List.Forall₂ (fun a b => Same (.dict a) (.dict b)) read st.2
  seqs : read.map (fun r => field r "seq") = (List.range read.length).map fun i => .int (i + 1)

section

variable {P : Platform} {T : V2Texts} {initial : Str} {st : Bytes × List V2Record}
  {read : List V2Record}

theorem segmentAppend_eq {env : SegmentEnv} {data : Bytes} {call : SegmentCall} :
    (∃ e, segmentAppend P T initial env data call = (.error e, data)) ∨
      ∃ record line, newLine P T initial env.recordedAt data call = .ok (record, line) ∧
        segmentAppend P T initial env data call = match env.fault with
          | none => (.ok record, data ++ line)
          | some (written, e) => (.error e, data ++ line.take written) := by
  unfold segmentAppend
  cases newLine P T initial env.recordedAt data call with
  | error e => exact .inl ⟨e, rfl⟩
  | ok p => exact .inr ⟨p.1, p.2, rfl, rfl⟩

/-- One append: it raises and leaves the file, or its record is in the file. -/
theorem holds_step (hwidth : ∀ b, (P.sha256 b).length = 32) (h : Holds P T initial st read)
    {call : SegmentEnv × SegmentCall}
    (henv : call.1.Unwritten) (hcall : call.2.Distinct) :
    ∃ read', Holds P T initial (segmentStep P T initial st call) read' := by
  obtain ⟨⟨lines, hseg⟩, hclosed, hsame, hseqs⟩ := h
  have hstay : ∀ e, segmentAppend P T initial call.1 st.1 call.2 = (.error e, st.1) →
      segmentStep P T initial st call = st := by
    intro e he
    rw [segmentStep, he]
  rcases segmentAppend_eq with ⟨e, he⟩ | ⟨record, line, hline, happ⟩
  · rw [hstay e he]
    exact ⟨read, ⟨lines, hseg⟩, hclosed, hsame, hseqs⟩
  cases hfault : call.1.fault with
  | some f =>
    obtain ⟨written, e⟩ := f
    obtain rfl : written = 0 := henv _ hfault
    rw [hfault] at happ
    rw [hstay e (by simpa using happ)]
    exact ⟨read, ⟨lines, hseg⟩, hclosed, hsame, hseqs⟩
  | none =>
    rw [hfault] at happ
    obtain ⟨hseg', hclosed'⟩ := newLine_spec hwidth hseg hclosed hcall hline
    obtain ⟨hsealed, -, hnum⟩ :=
      newRecord_spec hwidth hseg hcall ((newLine_iff hwidth hseg hcall).mp hline).1
    rw [segmentStep, happ]
    refine ⟨read ++ [reread P.keySort record], ⟨_, hseg'⟩, hclosed', ?_, ?_⟩
    · obtain ⟨hparsed, -, -⟩ := hsealed
      have hreload := same_reload P.keySort hparsed
      cases hparsed with
      | dict hd _ =>
      rw [(reread_spec (S := P.keySort) hd).1] at hreload
      exact List.rel_append hsame (.cons hreload .nil)
    · obtain ⟨seq, hseq, -⟩ := isPositiveInt_iff.mp hsealed.reread.shaped.seq
      have hmark : seqOf (reread P.keySort record) = seqOf record := (Prod.mk.inj hsealed.marks.1).2
      rw [seqOf, hseq, hnum] at hmark
      obtain rfl : seq = read.length + 1 := hmark
      rw [List.map_append, hseqs, List.length_append, List.length_singleton, List.range_succ,
        List.map_append]
      simp [hseq]

theorem holds_run (hwidth : ∀ b, (P.sha256 b).length = 32) {calls : List (SegmentEnv × SegmentCall)}
    (hcalls : ∀ call ∈ calls, call.1.Unwritten ∧ call.2.Distinct) (h : Holds P T initial st read) :
    ∃ read', Holds P T initial (segmentRun P T initial st calls) read' := by
  induction calls generalizing st read with
  | nil => exact ⟨read, h⟩
  | cons call calls ih =>
    obtain ⟨hcall, hcalls⟩ := List.forall_mem_cons.mp hcalls
    obtain ⟨read', h'⟩ := holds_step hwidth h hcall.1 hcall.2
    exact ih hcalls h'

/-- A file with a record is valid. -/
theorem Holds.valid (h : Holds P T initial st read) (exc : PyError → Str) (hne : st.2 ≠ []) :
    SegmentValid P T exc initial st.1 st.2.length := by
  obtain ⟨⟨lines, hseg⟩, -, hsame, -⟩ := h
  have hlength := hsame.length_eq
  rw [segmentValid_iff]
  cases read with
  | nil => exact absurd (List.length_eq_zero_iff.mp hlength.symm) hne
  | cons first rest =>
    refine ⟨fun hdata => ?_, ?_, lines, _, hseg, hlength⟩
    · have hrecords := hseg.records
      rw [segmentRecords, if_pos hdata] at hrecords
      cases hrecords
    · have hprev : field first "prev_hash" = .str initial := (Prod.mk.inj hseg.linked.1).1
      have := (hseg.sealed first List.mem_cons_self).shaped.prevHash
      rwa [hprev] at this

end

/-! ## A call that returns -/

section

variable {P : Platform} {T : V2Texts} {initial : Str} {data : Bytes} {lines : List Str}
  {records : List V2Record}

/-- A tree of ASCII texts has a UTF-8 form. -/
theorem encode_of_texts {st : JsonStyle} (hst : st.ensureAscii = false) {j : Json}
    (h : ∀ s ∈ j.texts, Ascii s) : ∃ b, encode (render st j) = some b :=
  Option.isSome_iff_exists.mp ((encode_render_isSome hst j).mpr fun s hs =>
    encode_isSome_of_ascii (h s hs))

theorem ascii_of_all {s : Str} (h : s.all (fun c => c.val < 128) = true) : Ascii s := by
  simpa [Ascii] using h

/-- A call with the least in it. -/
def plainCall : SegmentCall :=
  ⟨lit "x", lit "x", .dict [], lit "x", lit "x", .dict [], .dict [], .dict [], lit "x"⟩

theorem distinct_plainCall : plainCall.Distinct := ⟨rfl, rfl, rfl, rfl⟩

theorem ascii_of_isHash {p : Str} (h : isHash (.str p) = true) : Ascii p := by
  intro c hc
  simp only [isHash, decide_eq_true_eq, List.all_eq_true] at h
  have := h.2 c hc
  omega

theorem texts_plainFields {S : KeySort} {n : Int} {p : Str} (hp : isHash (.str p) = true) :
    ∀ q ∈ segmentFields plainCall (lit "x") (.int n) (.str p), Ascii (keyText q.1) ∧
    ∀ s ∈ (toJson S true q.2).texts, Ascii s := by
  have htext : ∀ t : Str, Ascii t → ∀ s ∈ (toJson S true (.str t)).texts, Ascii s := by
    intro t ht s hs
    obtain rfl : s = t := by simpa [toJson, Json.texts] using hs
    exact ht
  have hempty : ∀ s ∈ (toJson S true (.dict [])).texts, Ascii s := by
    intro s hs
    obtain ⟨q, hq, -⟩ := mem_texts_dict.mp hs
    cases hq
  have hint : ∀ s ∈ (toJson S true (.int n)).texts, Ascii s := by simp [toJson, Json.texts]
  have hascii := ascii_of_isHash hp
  simp only [segmentFields, plainCall, List.forall_mem_cons]
  refine ⟨⟨?_, htext _ ?_⟩, ⟨?_, htext _ ?_⟩, ⟨?_, hint⟩, ⟨?_, htext _ ?_⟩, ⟨?_, htext _ ?_⟩,
    ⟨?_, htext _ ?_⟩, ⟨?_, htext _ ?_⟩,
    ⟨?_, hempty⟩, ⟨?_, hempty⟩, ⟨?_, hempty⟩, ⟨?_, hempty⟩, ⟨?_, htext _ ?_⟩,
    ⟨?_, htext _ hascii⟩, by simp⟩
  all_goals exact ascii_of_all (by decide)

theorem shaped_plainRecord {n : Int} {p : Str} (hn : 1 ≤ n) (hp : isHash (.str p) = true) :
    Shaped (segmentRecord plainCall (lit "x") (.int n) (.str p) genesisHash) := by
  have hseq := @getItem_seq plainCall (lit "x") (.int n) (.str p) genesisHash
  have hprev := @getItem_prevHash plainCall (lit "x") (.int n) (.str p) genesisHash
  have hhash := @getItem_recordHash plainCall (lit "x") (.int n) (.str p) genesisHash
  refine ⟨?_, ?_, by rfl, ?_, ?_, ?_, ?_, ?_⟩
  · simp only [requiredFields, List.forall_mem_cons]
    exact ⟨rfl, rfl, rfl, rfl, rfl, rfl, rfl, rfl, rfl, rfl, rfl, rfl, rfl, rfl, by simp⟩
  · simp only [segmentRecord, segmentFields, List.cons_append, List.nil_append,
      List.forall_mem_cons]
    refine ⟨?_, ?_, ?_, ?_, ?_, ?_, ?_, ?_, ?_, ?_, ?_, ?_, ?_, ?_, by simp⟩
    all_goals decide
  · rw [field, hseq]
    exact decide_eq_true hn
  · rw [field, hprev]
    exact hp
  · rw [field, hhash]
    decide
  · simp only [List.forall_mem_cons]
    exact ⟨rfl, rfl, rfl, rfl, rfl, rfl, by simp⟩
  · simp only [List.forall_mem_cons]
    exact ⟨rfl, rfl, rfl, rfl, by simp⟩

/-- The plain call returns, whatever segment it finds. -/
theorem newLine_plainCall (hwidth : ∀ b, (P.sha256 b).length = 32)
    (hinitial : isHash (.str initial) = true)
    (hseg : Segment P T initial data lines records) :
    ∃ record line, newLine P T initial (lit "x") data plainCall = .ok (record, line) := by
  obtain ⟨p, hnext, htip⟩ := nextLink_spec hseg
  have hp : isHash (.str p) = true := by
    -- the previous hash is the initial one or a record hash, so it is ASCII
    rcases List.eq_nil_or_concat records with rfl | ⟨rs, last, rfl⟩
    · obtain rfl : initial = p := by simpa using htip
      exact hinitial
    · rw [List.concat_eq_append] at htip hseg
      rw [tip_concat] at htip
      have hhash : field last "record_hash" = .str p := (Prod.mk.inj htip).1
      rw [← hhash]
      exact (hseg.sealed last (by simp)).shaped.recordHash
  have hascii := @texts_plainFields P.keySort (records.length + 1) p hp
  have hadmits :
    admits (.dict (segmentFields plainCall (lit "x") (.int (records.length + 1)) (.str p))) =
    true := rfl
  have hsortable :
    sortable (.dict (segmentFields plainCall (lit "x") (.int (records.length + 1)) (.str p))) =
    true := rfl
  obtain ⟨b, hb⟩ : ∃ b, encode (render canonicalStyle (toJson P.keySort true
      (.dict (segmentFields plainCall (lit "x") (.int (records.length + 1)) (.str p))))) =
      some b := by
    refine encode_of_texts rfl fun s hs => ?_
    obtain ⟨q, hq, h⟩ := mem_texts_dict.mp hs
    rcases h with rfl | h
    · exact (hascii q hq).1
    · exact (hascii q hq).2 s h
  have hrecord : newRecord P T initial (lit "x") data plainCall =
      .ok (segmentRecord plainCall (lit "x") (.int (records.length + 1)) (.str p)
        (P.hexdigest b)) := by
    have hpos : (1 : Int) ≤ records.length + 1 := by omega
    have hpre := (recordPreimage_iff (T := T)).mpr ⟨shaped_plainRecord hpos hp, rfl⟩
    have hvalid := (validateValue_iff (lit "record") _).mpr hadmits
    simp only [newRecord, hseg.records, hnext, computeRecordHash, hpre, unhashed_segmentRecord,
      sha256Hex, canonicalize, hvalid, dumps,
      hsortable, encodeE_eq_ok.mpr hb, bind, Except.bind, Bool.not_true, Bool.and_false,
      Bool.false_eq_true, if_false]
  obtain ⟨line, hline⟩ : ∃ line, encode (recordLine P
      (segmentRecord plainCall (lit "x") (.int (records.length + 1)) (.str p) (P.hexdigest b)) ++
      [10]) = some line := by
    obtain ⟨a, ha⟩ : ∃ a, encode (recordLine P
        (segmentRecord plainCall (lit "x") (.int (records.length + 1)) (.str p) (P.hexdigest b))) =
        some a := by
      refine encode_of_texts rfl fun s hs => ?_
      obtain ⟨q, hq, h⟩ := mem_texts_dict.mp hs
      rcases List.mem_append.mp hq with hq | hq
      · rcases h with rfl | h
        · exact (hascii q hq).1
        · exact (hascii q hq).2 s h
      · obtain rfl := List.mem_singleton.mp hq
        rcases h with rfl | h
        · exact ascii_of_all (show (lit "record_hash").all (fun c => c.val < 128) = true by decide)
        · obtain rfl : s = P.hexdigest b := by simpa [toJson, Json.texts] using h
          exact ascii_of_isHash (isHash_hex (hwidth b))
    exact ⟨_, encode_append ha rfl⟩
  exact ⟨_, line, (newLine_iff hwidth hseg distinct_plainCall).mpr ⟨hrecord, hline⟩⟩

end

/-! ## The round trip -/

/-- **What appends leave that return, or raise before a byte is written**: the file is read as the
records that were returned, in their order and under the numbers 1, 2, 3, and it is valid once there
is one. One that raises leaves the file as it was. -/
theorem segment_law {P : Platform} (hwidth : ∀ b, (P.sha256 b).length = 32) (T : V2Texts)
    (exc : PyError → Str) (initial : Str)
    (calls : List (SegmentEnv × SegmentCall)) (hcalls : ∀ call ∈ calls, call.1.Unwritten ∧
      call.2.Distinct) :
    (∃ read, segmentRecords T (segmentRun P T initial ([], []) calls).1 = .ok read ∧
      List.Forall₂ (fun a b => Same (.dict a) (.dict b)) read
      (segmentRun P T initial ([], []) calls).2 ∧
      read.map (fun r => field r "seq") = (List.range read.length).map fun i => .int (i + 1)) ∧
    ((segmentRun P T initial ([], []) calls).2 ≠ [] →
      SegmentValid P T exc initial (segmentRun P T initial ([], []) calls).1
      (segmentRun P T initial ([], []) calls).2.length) ∧
    ∀ env call data e, env.Unwritten → (segmentAppend P T initial env data call).1 = .error e →
      (segmentAppend P T initial env data call).2 = data := by
  have hempty : Holds P T initial ([], []) [] := ⟨⟨[], segment_nil initial⟩, closed_nil, .nil, rfl⟩
  obtain ⟨read, h⟩ := holds_run hwidth hcalls hempty
  obtain ⟨lines, hseg⟩ := h.segment
  refine ⟨⟨read, hseg.records, h.same, h.seqs⟩, h.valid exc, fun env call data e henv herror => ?_⟩
  rcases segmentAppend_eq with ⟨e', he⟩ | ⟨record, line, -, happ⟩
  · rw [he]
  · cases hfault : env.fault with
    | none =>
      rw [happ, hfault] at herror
      cases herror
    | some f =>
      obtain ⟨written, e'⟩ := f
      obtain rfl : written = 0 := henv _ hfault
      rw [happ, hfault]
      simp

/-- Two appends to a segment, the second after an `open` that failed. -/
theorem segment_law_appends : ∃ read,
    segmentRecords sampleTexts (segmentRun counting sampleTexts genesisHash ([], [])
    [(⟨lit "x", none⟩, plainCall), (⟨lit "x", some (0, .osError [])⟩, plainCall),
      (⟨lit "x", none⟩, plainCall)]).1 = .ok read :=
  (segment_law counting_width sampleTexts (fun _ => []) genesisHash
    [(⟨lit "x", none⟩, plainCall), (⟨lit "x", some (0, .osError [])⟩, plainCall),
      (⟨lit "x", none⟩, plainCall)]
    (by simp [SegmentEnv.Unwritten, distinct_plainCall])).1.imp fun _ h => h.1

/-- No append leaves a segment that is not valid, and one that raises in `fsync` leaves its record
in the file. -/
theorem segment_unequal : ¬SegmentValid counting sampleTexts (fun _ => []) genesisHash
      (segmentRun counting sampleTexts genesisHash ([], []) []).1
      (segmentRun counting sampleTexts genesisHash ([], []) []).2.length ∧
    (segmentAppend counting sampleTexts genesisHash ⟨lit "x", some (4096, .osError [])⟩
      [] plainCall).1 = .error (.osError []) ∧
    (segmentAppend counting sampleTexts genesisHash ⟨lit "x", some (4096, .osError [])⟩
        [] plainCall).2 ≠ [] := by
  have hseg : Segment counting sampleTexts genesisHash [] [] [] := segment_nil genesisHash
  obtain ⟨record, line, hline⟩ := newLine_plainCall counting_width (by decide) hseg
  have hne := line_ne_nil counting_width hseg distinct_plainCall hline
  refine ⟨fun h => (segmentValid_iff.mp h).1 rfl, ?_, ?_⟩
  · rw [segmentAppend, hline]
  · rw [segmentAppend, hline]
    simp [hne]

end Ledger
