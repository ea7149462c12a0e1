import Msb.Ledger.AuditV2
import Msb.Ledger.Notary

/-!
# The standalone verifier of version 2

`audit_v2.py`: a file of audit records, one JSON object on each line, is checked without the
database it was exported from. Sequence numbers count from one, every record links to the record
before it, and its hash is the hash of its canonical text without the hash.

* `verifyJsonl` — `verify_jsonl`
* `canonicalize_inj` — values that were read and share their canonical text are the same
* `verifyJsonl_sound` — one head, one list of records
-/

namespace Ledger

open Py HashChain

/-! ## Reading -/

/-- An object of a record file. -/
abbrev V2Record := List (PyKey × PyVal)

/-- What the verifier asks of the language for its messages: `repr`, and the text of a
`JSONDecodeError`. -/
structure V2Texts where
  repr : PyVal → Str
  decodeError : Str → Str

def verificationError (message : Str) : PyError := .raised (lit "VerificationError") message

/-- The first key that is there already. -/
def repeatedKey? (seen : List Str) : List Str → Option Str
  | [] => none
  | k :: ks => if k ∈ seen then some k else repeatedKey? (k :: seen) ks

mutual

/-- The key that `_strict_pairs` raises on: objects are built from the inside out. -/
def duplicateKey? : Json → Option Str
  | .arr xs => duplicateKeyElems? xs
  | .obj kvs => (duplicateKeyMembers? kvs).or (repeatedKey? [] (kvs.map Prod.fst))
  | _ => none

def duplicateKeyElems? : List Json → Option Str
  | [] => none
  | x :: xs => (duplicateKey? x).or (duplicateKeyElems? xs)

def duplicateKeyMembers? : List (Str × Json) → Option Str
  | [] => none
  | (_, v) :: kvs => (duplicateKey? v).or (duplicateKeyMembers? kvs)

end

section

variable (P : Platform) (T : V2Texts)

/-- `loads_strict`. Of a text that is broken behind a duplicate key, the break is reported. -/
def loadsStrict (data : Str) : Except PyError PyVal :=
  match parse data with
  | none => .error .jsonDecodeError
  | some j =>
    match duplicateKey? j with
    | some key =>
      .error (verificationError (lit "duplicate JSON object key: " ++ T.repr (.str key)))
    | none => .ok (ofJson j)

/-- `for line in handle`: a line keeps the newline that ends it. -/
def fileLines : Str → List Str
  | [] => []
  | c :: s => if c = 10 then [10] :: fileLines s else consLine c (fileLines s)

/-- The body of `iter_jsonl`, for one line. -/
def jsonlRecord (lineNumber : Nat) (line : Str) : Except PyError V2Record := do
  raiseIf (strip line = [])
    (verificationError (lit "blank line in JSONL at line " ++ (intLit lineNumber).text))
  match loadsStrict T line with
  | .error .jsonDecodeError =>
    .error (verificationError (lit "invalid JSON at line " ++ (intLit lineNumber).text ++
      lit ": " ++ T.decodeError line))
  | .error e => .error e
  | .ok (.dict items) => .ok items
  | .ok _ =>
    .error (verificationError
      (lit "JSONL line " ++ (intLit lineNumber).text ++ lit " is not an object"))

def jsonlRecords (lineNumber : Nat) : List Str → Except PyError (List V2Record)
  | [] => .ok []
  | line :: lines => do
    let record ← jsonlRecord T lineNumber line
    let records ← jsonlRecords (lineNumber + 1) lines
    .ok (record :: records)

/-- The lines of a file opened as text. -/
def textLines (data : Bytes) : Except PyError (List Str) :=
  match decode data with
  | none => .error unicodeDecodeError
  | some text => .ok (fileLines (universalNewlines text))

/-- `list(iter_jsonl(path))` -/
def iterJsonl (data : Bytes) : Except PyError (List V2Record) := do
  let lines ← textLines data
  jsonlRecords T 1 lines

/-! ## The fields of a record -/

def schemaVersion : Str := lit "msb.audit.v2"

/-- `_REQUIRED_FIELDS` -/
def requiredFields : List Str :=
  [lit "schema_version", lit "record_type", lit "seq", lit "recorded_at", lit "component",
    lit "actor", lit "action", lit "authority", lit "execution", lit "verification", lit "payload",
    lit "environment_ref", lit "prev_hash", lit "record_hash"]

/-- `record[name]` of a field that is there. -/
def field (record : V2Record) (name : String) : PyVal := (getItem record (lit name)).getD .none

/-- `isinstance(v, str) and _HASH_RE.fullmatch(v)` -/
def isHash : PyVal → Bool
  | .str s => s.length = 64 ∧ s.all fun c => (48 ≤ c.val ∧ c.val ≤ 57) ∨ (97 ≤ c.val ∧ c.val ≤ 102)
  | _ => false

theorem isHash_hex {b : Bytes} (hlen : b.length = 32) : isHash (.str (hex b)) = true := by
  have hdigit : ∀ d, d < 16 → (48 ≤ (hexChar d).val ∧ (hexChar d).val ≤ 57) ∨
      (97 ≤ (hexChar d).val ∧ (hexChar d).val ≤ 102) := by
    decide
  have hlength : (hex b).length = 64 := by simp [hex, hlen]
  have hall : ∀ c ∈ hex b, (48 ≤ c.val ∧ c.val ≤ 57) ∨ (97 ≤ c.val ∧ c.val ≤ 102) := by
    intro c hc
    obtain ⟨x, -, hx⟩ := List.mem_flatMap.mp hc
    have hlt : x.toNat < 256 := x.toNat_lt
    simp only [List.mem_cons, List.not_mem_nil, or_false] at hx
    rcases hx with rfl | rfl
    · exact hdigit _ (by omega)
    · exact hdigit _ (by omega)
  simpa [isHash, hlength] using hall

/-- `isinstance(v, int) and not isinstance(v, bool) and v >= 1` -/
def isPositiveInt : PyVal → Bool
  | .int i => 1 ≤ i
  | _ => false

/-- `isinstance(v, str) and v.strip()` -/
def isNonEmptyText : PyVal → Bool
  | .str s => strip s ≠ []
  | _ => false

def isObject : PyVal → Bool
  | .dict _ => true
  | _ => false

/-- `sorted(names)`, as it is formatted. -/
def sortedNames (names : List Str) : Str :=
  lit "[" ++ (lit ", ").intercalate ((names.insertionSort (· ≤ ·)).map fun s => T.repr (.str s)) ++
    lit "]"

/-- `record_preimage` -/
def recordPreimage (record : V2Record) : Except PyError V2Record := do
  let missing := requiredFields.filter fun f => (getItem record f).isNone
  let extra := (record.map fun p => keyText p.1).filter (· ∉ requiredFields)
  raiseIf (missing ≠ [])
    (verificationError (lit "record is missing required fields: " ++ sortedNames T missing))
  raiseIf (extra ≠ [])
    (verificationError (lit "record has unsupported fields: " ++ sortedNames T extra))
  raiseIf (isText (field record "schema_version") schemaVersion = false)
    (verificationError
      (lit "unsupported schema_version: " ++ T.repr (field record "schema_version")))
  raiseIf (isPositiveInt (field record "seq") = false)
    (verificationError (lit "seq must be a positive integer"))
  raiseIf (isHash (field record "prev_hash") = false)
    (verificationError (lit "prev_hash must be 64 lowercase hexadecimal characters"))
  raiseIf (isHash (field record "record_hash") = false)
    (verificationError (lit "record_hash must be 64 lowercase hexadecimal characters"))
  ["record_type", "recorded_at", "component", "actor", "action", "environment_ref"].forM fun name =>
    raiseIf (isNonEmptyText (field record name) = false)
      (verificationError (lit name ++ lit " must be a non-empty string"))
  ["authority", "execution", "verification", "payload"].forM fun name =>
    raiseIf (isObject (field record name) = false)
      (verificationError (lit name ++ lit " must be a JSON object"))
  .ok (record.filter fun p => p.1 ≠ .str (lit "record_hash"))

/-- `compute_record_hash` -/
def computeRecordHash (record : V2Record) : Except PyError Str := do
  let preimage ← recordPreimage T record
  sha256Hex P (.dict preimage)

/-! ## The verifier -/

/-- What `verify_jsonl` returns. -/
inductive V2Verdict where
  | badInitial (reason : Str)
  | broken (recordCount : Nat) (brokenAtSeq : PyVal) (reason : Str)
  | valid (recordCount : Nat) (headHash : Str) (headSeq : Nat)

/-- The variables of the loop. -/
structure V2State where
  expectedSeq : Int
  expectedPrev : Str
  count : Nat
  head : Str

/-- `except (CanonicalizationError, VerificationError) as exc`: the message, of one of these. -/
def caught (names : List Str) : PyError → Option Str
  | .raised name message => if name ∈ names then some message else none
  | _ => none

/-- The body of the loop of `verify_jsonl`: the verdict it returns, or the variables after it. -/
def checkRecord (st : V2State) (record : V2Record) : Except PyError (V2Verdict ⊕ V2State) :=
  match recordPreimage T record with
  | .error e =>
    match caught [lit "CanonicalizationError", lit "VerificationError"] e with
    | some reason => .ok (.inl (.broken st.count ((getItem record (lit "seq")).getD .none) reason))
    | none => .error e
  | .ok preimage =>
    match field record "seq" with
    | .int seq =>
      if seq ≠ st.expectedSeq then
        .ok (.inl (.broken st.count (.int seq) (lit "sequence gap or reorder: expected " ++
          (intLit st.expectedSeq).text ++ lit ", got " ++ (intLit seq).text)))
      else if isText (field record "prev_hash") st.expectedPrev = false then
        .ok (.inl (.broken st.count (.int seq) (lit "prev_hash does not match preceding record")))
      else
        match sha256Hex P (.dict preimage) with
        | .error e =>
          match caught [lit "CanonicalizationError"] e with
          | some reason => .ok (.inl (.broken st.count (.int seq) reason))
          | none => .error e
        | .ok recomputed =>
          if isText (field record "record_hash") recomputed = false then
            .ok (.inl (.broken st.count (.int seq)
              (lit "stored hash does not match canonical record hash")))
          -- the two hashes are one text here
          else .ok (.inr ⟨st.expectedSeq + 1, recomputed, st.count + 1, recomputed⟩)
    -- no other value gets past `record_preimage`
    | _ => .error .typeError

/-- The loop of `verify_jsonl`, over what is left of the file. -/
def verifyLines (lineNumber : Nat) (st : V2State) : List Str → Except PyError V2Verdict
  | [] => .ok (.valid st.count st.head st.count)
  | line :: lines => do
    let record ← jsonlRecord T lineNumber line
    match ← checkRecord P T st record with
    | .inl verdict => .ok verdict
    | .inr st' => verifyLines (lineNumber + 1) st' lines

/-- `verify_jsonl`, on a file that can be opened. -/
def verifyJsonl (data : Bytes) (initialPrevHash : PyVal) : Except PyError V2Verdict :=
  match initialPrevHash with
  | .str initial => do
    if isHash (.str initial) then
      let lines ← textLines data
      verifyLines P T 1 ⟨1, initial, 0, genesisHash⟩ lines
    else .ok (.badInitial (lit "initial_prev_hash must be 64 lowercase hexadecimal characters"))
  | _ => .ok (.badInitial (lit "initial_prev_hash must be 64 lowercase hexadecimal characters"))

end

variable {P : Platform} {T : V2Texts}

/-! ## What is read -/

variable {v w : PyVal} {record a b : V2Record} {h head p : Str}

theorem parsed_of_loadsStrict {data : Str} (h : loadsStrict T data = .ok v) : Parsed v := by
  unfold loadsStrict at h
  cases hj : parse data with
  | none => simp [hj] at h
  | some j =>
    cases hd : duplicateKey? j with
    | some key => simp [hj, hd] at h
    | none =>
      simp only [hj, hd] at h
      obtain rfl := Except.ok.inj h
      exact parsed_ofJson j

theorem parsed_of_jsonlRecord {n : Nat} {line : Str} (h : jsonlRecord T n line = .ok record) :
    Parsed (.dict record) := by
  simp only [jsonlRecord, bind_eq_ok, raiseIf_eq_ok] at h
  obtain ⟨-, -, h⟩ := h
  split at h
  · cases h
  · cases h
  · next heq =>
    obtain rfl := Except.ok.inj h
    exact parsed_of_loadsStrict heq
  · cases h

/-! ## The canonical text -/

theorem canonicalize_eq_ok {c : Str} (h : canonicalize P v = .ok c) :
    c = render canonicalStyle (toJson P.keySort true v) := by
  simp only [canonicalize, bind_eq_ok, dumps] at h
  obtain ⟨-, -, h⟩ := h
  split at h
  · cases h
  · exact (Except.ok.inj h).symm

/-- **Values that were read and share their canonical text are the same.** Numbers, booleans and
texts that look alike are not: `1`, `1.0` and `true` have three texts. -/
theorem canonicalize_inj {c : Str} (hv : Parsed v) (hw : Parsed w) (hvc : canonicalize P v = .ok c)
    (hwc : canonicalize P w = .ok c) : Same v w := by
  have htext : render canonicalStyle (toJson P.keySort true v)
      = render canonicalStyle (toJson P.keySort true w) := by
    rw [← canonicalize_eq_ok hvc, canonicalize_eq_ok hwc]
  have htree := render_injective canonicalStyle rfl htext
  exact same_of_toJson_eq P.keySort v w hv hw htree

theorem sha256Hex_inj (hP : Function.Injective P.sha256) (hv : Parsed v) (hw : Parsed w)
    (hvh : sha256Hex P v = .ok h) (hwh : sha256Hex P w = .ok h) : Same v w := by
  simp only [sha256Hex, bind_eq_ok, encodeE_eq_ok] at hvh hwh
  obtain ⟨c, hc, a, ha, hh⟩ := hvh
  obtain ⟨d, hd, b, hb, hh'⟩ := hwh
  have hdigest : P.hexdigest a = P.hexdigest b := by
    rw [Except.ok.inj hh, Except.ok.inj hh']
  obtain rfl := hexdigest_inj hP hdigest
  obtain rfl := encode_injective ha hb
  exact canonicalize_inj hv hw hc hd

/-! ## A checked record -/

/-- The record without its hash. -/
def unhashed (record : V2Record) : V2Record := record.filter fun p => p.1 ≠ .str (lit "record_hash")

/-- What the loop has checked of a record that it passes. -/
structure Checked (P : Platform) (record : V2Record) (seq : Int) (prev hash : Str) : Prop where
  seq : getItem record (lit "seq") = some (.int seq)
  prevHash : getItem record (lit "prev_hash") = some (.str prev)
  recordHash : getItem record (lit "record_hash") = some (.str hash)
  hashed : sha256Hex P (.dict (unhashed record)) = .ok hash

theorem getItem_of_field {name : String} (h : field record name = v) (hv : v ≠ .none) :
    getItem record (lit name) = some v := by
  unfold field at h
  cases hget : getItem record (lit name) with
  | none =>
    rw [hget] at h
    exact absurd h.symm hv
  | some w =>
    rw [hget] at h
    exact congrArg some h

theorem eq_str_of_isText {s : Str} (h : isText v s = true) : v = .str s := by
  cases v with
  | str t => exact congrArg PyVal.str (of_decide_eq_true h)
  | _ => cases h

theorem recordPreimage_eq_ok {preimage : V2Record} (h : recordPreimage T record = .ok preimage) :
    preimage = unhashed record := by
  simp only [recordPreimage, bind_eq_ok] at h
  obtain ⟨-, -, -, -, -, -, -, -, -, -, -, -, -, -, -, -, h⟩ := h
  exact (Except.ok.inj h).symm

/-- A record that the loop passes is checked, and the next one is to follow it. -/
theorem checkRecord_eq_inr {st st' : V2State} (h : checkRecord P T st record = .ok (.inr st')) :
    ∃ hash, st' = ⟨st.expectedSeq + 1, hash, st.count + 1, hash⟩ ∧
      Checked P record st.expectedSeq st.expectedPrev hash := by
  unfold checkRecord at h
  split at h
  · split at h <;> cases h
  · next preimage hpre =>
    obtain rfl := recordPreimage_eq_ok hpre
    split at h
    · next seq hseq =>
      by_cases hne : seq = st.expectedSeq
      swap
      · rw [if_pos hne] at h
        cases h
      rw [if_neg (not_not.mpr hne)] at h
      by_cases hprev : isText (field record "prev_hash") st.expectedPrev = false
      · rw [if_pos hprev] at h
        cases h
      rw [if_neg hprev] at h
      split at h
      · split at h <;> cases h
      · next recomputed hsha =>
        by_cases hhash : isText (field record "record_hash") recomputed = false
        · rw [if_pos hhash] at h
          cases h
        rw [if_neg hhash] at h
        rw [Bool.not_eq_false] at hprev hhash
        refine ⟨recomputed, (Sum.inr.inj (Except.ok.inj h)).symm, ?_, ?_, ?_, hsha⟩
        · exact getItem_of_field (hseq.trans (by rw [hne])) (by simp)
        · exact getItem_of_field (eq_str_of_isText hprev) (by simp)
        · exact getItem_of_field (eq_str_of_isText hhash) (by simp)
    · cases h

theorem checkRecord_not_valid {st : V2State} {verdict : V2Verdict} {c m : Nat}
    (h : checkRecord P T st record = .ok (.inl verdict)) : verdict ≠ .valid c head m := by
  rintro rfl
  unfold checkRecord at h
  split at h
  · split at h <;> cases h
  · split at h
    · split at h
      · cases h
      split at h
      · cases h
      split at h
      · split at h <;> cases h
      · split at h <;> cases h
    · cases h

/-! ## What a hash commits to -/

theorem mem_unhashed {key : Str} (hkey : key ≠ lit "record_hash") :
    (.str key, v) ∈ unhashed record ↔ (.str key, v) ∈ record := by
  simp [unhashed, hkey]

theorem parsed_unhashed (h : Parsed (.dict record)) :
    Parsed (.dict (unhashed record)) := by
  cases h with
  | dict hd hitems =>
    have hsub : List.Sublist (unhashed record) record := List.filter_sublist
    refine .dict ⟨?_, hd.nodup.sublist (hsub.map Prod.fst)⟩ ?_
    · exact fun p hp => hd.str p (hsub.subset hp)
    · rw [parsedItems_iff] at hitems ⊢
      exact fun p hp => hitems p (hsub.subset hp)

/-- The hash and what is hashed are the whole record. -/
theorem perm_unhashed (hnd : (record.map Prod.fst).Nodup)
    (h : getItem record (lit "record_hash") = some v) :
    record.Perm ((.str (lit "record_hash"), v) :: unhashed record) := by
  obtain ⟨xs, ys, rfl⟩ := List.append_of_mem (getItem_mem h)
  rw [List.map_append, List.map_cons, List.nodup_middle, List.nodup_cons, ← List.map_append] at hnd
  have hrest : unhashed (xs ++ ys) = xs ++ ys := by
    refine List.filter_eq_self.mpr fun p hp => ?_
    rw [decide_eq_true_eq]
    rintro hkey
    exact hnd.1 (List.mem_map.mpr ⟨p, hp, hkey⟩)
  have hsplit : unhashed (xs ++ (.str (lit "record_hash"), v) :: ys) = unhashed (xs ++ ys) := by
    simp [unhashed]
  rw [hsplit, hrest]
  exact List.perm_middle

/-- In two records of one hash a hashed field is the same, where it is an atom. -/
theorem field_same (hb : Parsed (.dict b)) {key : Str} (hkey : key ≠ lit "record_hash")
    (h : Same (.dict (unhashed a)) (.dict (unhashed b))) (hv : getItem a key = some v)
    (hw : getItem b key = some w) : Same v w := by
  obtain ⟨u, hu, hvu⟩ := same_of_mem h ((mem_unhashed hkey).mpr (getItem_mem hv))
  have hub := (mem_unhashed hkey).mp hu
  cases hb with
  | dict hd _ =>
    have heq := List.inj_on_of_nodup_map hd.nodup hub (getItem_mem hw) rfl
    obtain rfl := (Prod.mk.inj heq).2
    exact hvu

/-- **Records of one hash are the same record**, at one place of their chains. -/
theorem Checked.same {s t : Int} {q : Str} (hP : Function.Injective P.sha256)
    (ha : Parsed (.dict a)) (hb : Parsed (.dict b)) (hca : Checked P a s p h)
    (hcb : Checked P b t q h) :
    Same (.dict a) (.dict b) ∧ s = t ∧ p = q := by
  have hsame := sha256Hex_inj hP (parsed_unhashed ha) (parsed_unhashed hb) hca.hashed hcb.hashed
  have hseq : Same (.int s) (.int t) := field_same hb (by decide) hsame hca.seq hcb.seq
  have hprev : Same (.str p) (.str q) := field_same hb (by decide) hsame hca.prevHash hcb.prevHash
  refine ⟨?_, by cases hseq; rfl, by cases hprev; rfl⟩
  cases ha with
  | dict hda _ =>
  cases hb with
  | dict hdb _ =>
  exact same_dict_cons (perm_unhashed hda.nodup hca.recordHash)
    (perm_unhashed hdb.nodup hcb.recordHash) (.str h) hsame

/-! ## The chain of a file -/

/-- The sequence number of a record. -/
def seqOf (record : V2Record) : Int :=
  match field record "seq" with
  | .int i => i
  | _ => 0

/-- What the next record refers to: the hash, and the number before its own. -/
def mark (record : V2Record) : PyVal × Int := (field record "record_hash", seqOf record)

def prevMark (record : V2Record) : PyVal × Int := (field record "prev_hash", seqOf record - 1)

theorem Checked.mark_eq {s : Int} (hc : Checked P a s p h) :
    mark a = (.str h, s) := by
  simp [mark, seqOf, field, hc.seq, hc.recordHash]

theorem Checked.prevMark_eq {s : Int} (hc : Checked P a s p h) :
    prevMark a = (.str p, s - 1) := by
  simp [prevMark, seqOf, field, hc.seq, hc.prevHash]

/-- What is known of a record of a valid file whose numbers start at `first`. -/
def Passed (P : Platform) (first : Int) (record : V2Record) : Prop :=
  Parsed (.dict record) ∧ ∃ seq prev hash, first ≤ seq ∧ Checked P record seq prev hash

/-- **What a valid rest of a file is**: it is read as records that continue the chain, each checked,
and the head is the hash of the last one. -/
theorem verifyLines_valid {lines : List Str} {n : Nat} {st : V2State} {c m : Nat}
    (h : verifyLines P T n st lines = .ok (.valid c head m)) :
    ∃ records, jsonlRecords T n lines = .ok records ∧ c = st.count + records.length ∧
      (∀ r ∈ records, Passed P st.expectedSeq r) ∧
      Linked prevMark mark (.str st.expectedPrev, st.expectedSeq - 1) records ∧
      (tip mark (.str st.head, st.expectedSeq - 1) records).1 = .str head := by
  induction lines generalizing n st with
  | nil =>
    obtain ⟨rfl, rfl, -⟩ := V2Verdict.valid.inj (Except.ok.inj h)
    exact ⟨[], rfl, rfl, by simp, trivial, rfl⟩
  | cons line lines ih =>
    simp only [verifyLines, bind_eq_ok] at h
    obtain ⟨record, hrecord, answer, hanswer, h⟩ := h
    cases answer with
    | inl verdict =>
      -- the loop returns no valid verdict
      exact absurd (Except.ok.inj h) (checkRecord_not_valid hanswer)
    | inr st' =>
      obtain ⟨hash, rfl, hc⟩ := checkRecord_eq_inr hanswer
      obtain ⟨records, hrecords, rfl, hall, hlinked, htip⟩ := ih h
      refine ⟨record :: records, ?_, ?_, ?_, ?_, ?_⟩
      · simp only [jsonlRecords, hrecord, hrecords]
        rfl
      · simp only [List.length_cons]
        omega
      · refine List.forall_mem_cons.mpr ⟨⟨parsed_of_jsonlRecord hrecord, _, _, _, le_rfl, hc⟩, ?_⟩
        rintro r hr
        obtain ⟨hp, seq, prev, hash', hle, hr'⟩ := hall r hr
        exact ⟨hp, seq, prev, hash', (Int.le_of_lt (Int.lt_succ _)).trans hle, hr'⟩
      · refine ⟨hc.prevMark_eq, ?_⟩
        rw [hc.mark_eq]
        simpa using hlinked
      · rw [tip_cons, hc.mark_eq]
        simpa using htip

/-! ## One head, one file -/

/-- **What a valid file is.** -/
theorem verifyJsonl_valid {data : Bytes} {initialPrevHash : PyVal} {c m : Nat}
    (h : verifyJsonl P T data initialPrevHash = .ok (.valid c head m)) :
    ∃ records, iterJsonl T data = .ok records ∧ c = records.length ∧ (∀ r ∈ records, Passed P 1 r) ∧
      Linked prevMark mark (initialPrevHash, 0) records ∧
      (records ≠ [] → (tip mark (initialPrevHash, 0) records).1 = .str head) := by
  unfold verifyJsonl at h
  split at h
  · split at h
    · simp only [bind_eq_ok] at h
      obtain ⟨lines, hlines, h⟩ := h
      obtain ⟨records, hrecords, hc, hall, hlinked, htip⟩ := verifyLines_valid h
      refine ⟨records, ?_, by simpa using hc, hall, by simpa using hlinked, ?_⟩
      · simp only [iterJsonl, hlines]
        exact hrecords
      · intro hne
        cases records with
        | nil => exact absurd rfl hne
        | cons r records => exact htip
    · cases h
  · cases h

/-- Equal records, with what links them to their neighbours. -/
def SameRecord (a b : V2Record) : Prop :=
  Same (.dict a) (.dict b) ∧ mark a = mark b ∧ prevMark a = prevMark b

theorem sameRecord_of_hash (hP : Function.Injective P.sha256) {first : Int} (ha : Passed P first a)
    (hb : Passed P first b) (hhash : (mark a).1 = (mark b).1) :
    SameRecord a b := by
  obtain ⟨hpa, s, p, h, -, hca⟩ := ha
  obtain ⟨hpb, t, q, h', -, hcb⟩ := hb
  rw [hca.mark_eq, hcb.mark_eq] at hhash
  obtain rfl := PyVal.str.inj hhash
  obtain ⟨hsame, rfl, rfl⟩ := hca.same hP hpa hpb hcb
  exact ⟨hsame, by rw [hca.mark_eq, hcb.mark_eq], by rw [hca.prevMark_eq, hcb.prevMark_eq]⟩

/-- No record has the place before the first one. -/
theorem Passed.mark_ne (h : Passed P 1 a) (prev : PyVal) : mark a ≠ (prev, 0) := by
  obtain ⟨-, s, p, hash, hle, hc⟩ := h
  rw [hc.mark_eq]
  intro heq
  have : s = 0 := (Prod.mk.inj heq).2
  omega

/-- The last records of two files of one head have one mark: the hash of a record covers its number.
-/
theorem tip_eq_of_head (hP : Function.Injective P.sha256) {as bs : List V2Record} {g : PyVal × Int}
    (ha : ∀ a ∈ as, Passed P 1 a) (hb : ∀ b ∈ bs, Passed P 1 b) (hna : as ≠ []) (hnb : bs ≠ [])
    (h : (tip mark g as).1 = (tip mark g bs).1) : tip mark g as = tip mark g bs := by
  rcases tip_mem mark g as with ⟨-, h₀⟩ | ⟨a, hmem, hta⟩
  · exact absurd h₀ hna
  rcases tip_mem mark g bs with ⟨-, h₀⟩ | ⟨b, hmem', htb⟩
  · exact absurd h₀ hnb
  rw [← hta, ← htb] at h ⊢
  exact (sameRecord_of_hash hP (ha a hmem) (hb b hmem') h).2.1

/-- **Soundness of the verifier.** With a hash without collisions, a head stands for one list of
records, and a canonical text for one value. -/
theorem verifyJsonl_sound (hP : Function.Injective P.sha256) :
    (∀ (initialPrevHash : PyVal) (data data' : Bytes) (count count' headSeq headSeq' : Nat)
      (head : Str), verifyJsonl P T data initialPrevHash = .ok (.valid count head headSeq) →
      verifyJsonl P T data' initialPrevHash = .ok (.valid count' head headSeq') →
      0 < count → 0 < count' →
      ∃ records records', iterJsonl T data = .ok records ∧ iterJsonl T data' = .ok records' ∧
        List.Forall₂ (fun a b => Same (.dict a) (.dict b)) records records') ∧
    ∀ (data data' : Str) (v w : PyVal) (text : Str), loadsStrict T data = .ok v →
      loadsStrict T data' = .ok w → canonicalize P v = .ok text → canonicalize P w = .ok text →
      Same v w := by
  constructor
  · intro initialPrevHash data data' count count' headSeq headSeq' head h h' hpos hpos'
    obtain ⟨as, has, rfl, halla, hlinka, htipa⟩ := verifyJsonl_valid h
    obtain ⟨bs, hbs, rfl, hallb, hlinkb, htipb⟩ := verifyJsonl_valid h'
    have hna := List.ne_nil_of_length_pos hpos
    have hnb := List.ne_nil_of_length_pos hpos'
    have htip : tip mark (initialPrevHash, 0) as = tip mark (initialPrevHash, 0) bs :=
      tip_eq_of_head hP halla hallb hna hnb ((htipa hna).trans (htipb hnb).symm)
    have hsame : List.Forall₂ SameRecord as bs := by
      refine forall₂_of_tip_eq (fun a b hab => hab.2.2) ?_ ?_ ?_ hlinka hlinkb htip
      · intro a ha b hb hmark
        exact sameRecord_of_hash hP (halla a ha) (hallb b hb) (congrArg Prod.fst hmark)
      · exact fun a ha => (halla a ha).mark_ne _
      · exact fun b hb => (hallb b hb).mark_ne _
    exact ⟨as, bs, has, hbs, hsame.imp fun a b hab => hab.1⟩
  · intro data data' v w text hv hw hvc hwc
    exact canonicalize_inj (parsed_of_loadsStrict hv) (parsed_of_loadsStrict hw) hvc hwc

/-! One record in two files, its keys in another order, under a hash that is known where it is
needed. -/

/-- Every text but one hashes to itself, padded. -/
def Platform.planted (preimage digest : Bytes) : Platform :=
  ⟨KeySort.insertion, fun b => if b = preimage then digest else b ++ List.replicate 33 0⟩

theorem injective_planted {preimage digest : Bytes} (h : digest.length = 32) :
    Function.Injective (Platform.planted preimage digest).sha256 := by
  intro a b hab
  -- the digest is shorter than every padded text
  have hlen : ∀ c : Bytes, digest ≠ c ++ List.replicate 33 0 := by
    rintro c rfl
    simp at h
  simp only [Platform.planted] at hab
  split_ifs at hab with ha hb hb
  · rw [ha, hb]
  · exact absurd hab (hlen b)
  · exact absurd hab.symm (hlen a)
  · exact List.append_cancel_right hab

def sampleFields : V2Record :=
  [(.str (lit "schema_version"), .str schemaVersion),
    (.str (lit "record_type"), .str (lit "event")),
    (.str (lit "seq"), .int 1), (.str (lit "recorded_at"), .str (lit "2026-01-01T00:00:00+00:00")),
    (.str (lit "component"), .str (lit "msb")), (.str (lit "actor"), .str (lit "operator")),
    (.str (lit "action"), .str (lit "start")), (.str (lit "authority"), .dict []),
    (.str (lit "execution"), .dict []), (.str (lit "verification"), .dict []),
    (.str (lit "payload"), .dict [(.str (lit "n"), .int 1), (.str (lit "on"), .bool true)]),
    (.str (lit "environment_ref"), .str (lit "dev")), (.str (lit "prev_hash"), .str genesisHash)]

def sampleDigest : Bytes := List.replicate 32 7

def sampleRecord : V2Record := sampleFields ++ [(.str (lit "record_hash"), .str (hex sampleDigest))]

def samplePlatform : Platform :=
  .planted ((encode
    (render canonicalStyle (toJson KeySort.insertion true (.dict sampleFields)))).getD [])
    sampleDigest

def sampleLine (record : V2Record) : Str :=
  render canonicalStyle (toJson KeySort.insertion false (.dict record)) ++ [10]

def sampleFile (record : V2Record) : Bytes := (encode (sampleLine record)).getD []

def sampleTexts : V2Texts := ⟨fun _ => [], fun _ => []⟩

theorem textLines_sampleFile (h : (encode (sampleLine record)).isSome = true) :
    textLines (sampleFile record) = .ok (fileLines (universalNewlines (sampleLine record))) := by
  obtain ⟨b, hb⟩ := Option.isSome_iff_exists.mp h
  rw [textLines, sampleFile, hb, Option.getD_some, decode_encode hb]

/-- One record, with the head that the digest gives. -/
def V2Verdict.isSample : Except PyError V2Verdict → Bool
  | .ok (.valid 1 head 1) => head = hex sampleDigest
  | _ => false

theorem V2Verdict.eq_of_isSample {answer : Except PyError V2Verdict} (h : isSample answer = true) :
    answer = .ok (.valid 1 (hex sampleDigest) 1) := by
  unfold isSample at h
  split at h
  · rw [of_decide_eq_true h]
  · cases h

theorem verifyJsonl_sampleFile (h : (encode (sampleLine record)).isSome = true)
    (hrun : V2Verdict.isSample
      (verifyLines samplePlatform sampleTexts 1 ⟨1, genesisHash, 0, genesisHash⟩
        (fileLines (universalNewlines (sampleLine record)))) = true) :
    verifyJsonl samplePlatform sampleTexts (sampleFile record) (.str genesisHash)
      = .ok (.valid 1 (hex sampleDigest) 1) := by
  have hinitial : isHash (.str genesisHash) = true := by decide
  simp only [verifyJsonl, hinitial, if_true, textLines_sampleFile h]
  exact V2Verdict.eq_of_isSample hrun

theorem verifyJsonl_sound_reordered : ∃ records records',
    iterJsonl sampleTexts (sampleFile sampleRecord) = .ok records ∧
    iterJsonl sampleTexts (sampleFile sampleRecord.reverse) = .ok records' ∧
    List.Forall₂ (fun a b => Same (.dict a) (.dict b)) records records' :=
  (verifyJsonl_sound (T := sampleTexts) (injective_planted (by simp [sampleDigest]))).1
    (.str genesisHash)
    (sampleFile sampleRecord) (sampleFile sampleRecord.reverse) 1 1 1 1 (hex sampleDigest)
    (verifyJsonl_sampleFile (by decide +kernel) (by decide +kernel))
    (verifyJsonl_sampleFile (by decide +kernel) (by decide +kernel)) one_pos one_pos

end Ledger
