import Msb.Infra.CutText
import Msb.Infra.JsonUnsorted
import Msb.Ledger.V2Verify

/-!
# The segment of version 2

`V2Segment` of `migration.py`: a file of records that `append` extends under a lock and `verify`
checks. The hash is taken from the canonical text of the record in memory; the file holds another
text of it, and is read again line by line before each append.

* `Sealed.reread` — a record that carries its own hash still does after it was written and read
* `verifyLines_iff` — what the loop of the verifier accepts
* `segmentValid_iff` — what `verify` accepts
-/

namespace Ledger

open Py HashChain

/-! ## The code -/

/-- The arguments of `V2Segment.append`. -/
structure SegmentCall where
  component : Str
  eventType : Str
  payload : PyVal
  actor : Str
  action : Str
  authority : PyVal
  execution : PyVal
  verification : PyVal
  environmentRef : Str

/-- What an append meets: the clock, and what the write, the flush or `fsync` raises once so many
bytes are in the file. -/
structure SegmentEnv where
  recordedAt : Str
  fault : Option (Nat × PyError)

section

variable (P : Platform) (T : V2Texts)

/-- `V2Segment._records` -/
def segmentRecords (data : Bytes) : Except PyError (List V2Record) :=
  if data = [] then .ok [] else iterJsonl T data

/-- `record[key]` -/
def recordItem (record : V2Record) (key : String) : Except PyError PyVal :=
  match getItem record (lit key) with
  | some v => .ok v
  | none => .error (.raised (lit "KeyError") (lit key))

/-- `v + 1` -/
def plusOne : PyVal → Except PyError PyVal
  | .int i => .ok (.int (i + 1))
  | .bool b => .ok (.int (if b then 2 else 1))
  -- a float again, and `record_preimage` refuses every float
  | .float f => .ok (.float f)
  | _ => .error .typeError

/-- The `seq` and the `prev_hash` of the next record. -/
def nextLink (initial : Str) (records : List V2Record) : Except PyError (PyVal × PyVal) :=
  match records.getLast? with
  | none => .ok (.int 1, .str initial)
  | some last => do
    let seq ← recordItem last "seq"
    let seq ← plusOne seq
    let prevHash ← recordItem last "record_hash"
    .ok (seq, prevHash)

/-- The record of a call, without its hash. -/
def segmentFields (call : SegmentCall) (recordedAt : Str) (seq prevHash : PyVal) : V2Record :=
  [(.str (lit "schema_version"), .str (lit "msb.audit.v2")),
    (.str (lit "record_type"), .str call.eventType),
    (.str (lit "seq"), seq), (.str (lit "recorded_at"), .str recordedAt),
    (.str (lit "component"), .str call.component),
    (.str (lit "actor"), .str call.actor), (.str (lit "action"), .str call.action),
      (.str (lit "authority"), call.authority),
    (.str (lit "execution"), call.execution), (.str (lit "verification"), call.verification),
    (.str (lit "payload"), call.payload), (.str (lit "environment_ref"), .str call.environmentRef),
    (.str (lit "prev_hash"), prevHash)]

def segmentRecord (call : SegmentCall) (recordedAt : Str) (seq prevHash : PyVal) (recordHash : Str)
    : V2Record :=
  segmentFields call recordedAt seq prevHash ++ [(.str (lit "record_hash"), .str recordHash)]

/-- The record that an append writes. Its hash is computed over a record with `"0" * 64` in its
place. -/
def newRecord (initial recordedAt : Str) (data : Bytes) (call : SegmentCall) :
    Except PyError V2Record := do
  let records ← segmentRecords T data
  let (seq, prevHash) ← nextLink initial records
  let recordHash ← computeRecordHash P T (segmentRecord call recordedAt seq prevHash genesisHash)
  .ok (segmentRecord call recordedAt seq prevHash recordHash)

/-- The bytes that an append writes. -/
def newLine (initial recordedAt : Str) (data : Bytes) (call : SegmentCall) :
    Except PyError (V2Record × Bytes) := do
  let record ← newRecord P T initial recordedAt data call
  let text ← dumps P.keySort true plainStyle (.dict record)
  let line ← encodeE (text ++ [10])
  .ok (record, line)

/-- `V2Segment.append`: what it returns or raises, and the file it leaves. The lock is held from the
reading to the writing. -/
def segmentAppend (initial : Str) (env : SegmentEnv) (data : Bytes) (call : SegmentCall) :
    Except PyError V2Record × Bytes :=
  match newLine P T initial env.recordedAt data call with
  | .error e => (.error e, data)
  | .ok (record, line) =>
    match env.fault with
    | none => (.ok record, data ++ line)
    | some (written, e) => (.error e, data ++ line.take written)

/-- What `V2Segment.verify` returns. -/
inductive SegmentVerdict where
  | invalid (recordCount : Nat) (reason : Str)
  | result (verdict : V2Verdict)

/-- `except (OSError, ValueError, TypeError, KeyError)` -/
def segmentCaught : PyError → Bool
  | .osError _ | .valueError _ | .typeError | .jsonDecodeError | .unicodeEncodeError => true
  | .raised name _ =>
    name ∈ [lit "VerificationError", lit "CanonicalizationError", lit "UnicodeDecodeError",
      lit "KeyError"]
  | _ => false

/-- What `V2Segment.verify` guards. -/
def segmentCheck (initial : Str) (data : Bytes) : Except PyError (V2Verdict × List V2Record) := do
  let verdict ← verifyJsonl P T data (.str initial)
  let records ← segmentRecords T data
  .ok (verdict, records)

/-- `V2Segment.verify`, with the text of an exception. -/
def segmentVerify (exc : PyError → Str) (initial : Str) (data : Bytes) :
    Except PyError SegmentVerdict :=
  if data = [] then .ok (.invalid 0 (lit "v2 segment is empty"))
  else
    match segmentCheck P T initial data with
    | .error e => if segmentCaught e then .ok (.invalid 0 (exc e)) else .error e
    | .ok (.valid count head seq, first :: _) => do
      let prevHash ← recordItem first "prev_hash"
      if isText prevHash initial then .ok (.result (.valid count head seq))
      else .ok (.invalid count (lit "v2 segment does not link to the v1 head"))
    | .ok (verdict, _) => .ok (.result verdict)

end

/-! ## Lines -/

/-- A text without a line that is not ended. -/
def Ended (s : Str) : Prop := s = [] ∨ s.getLast? = some 10

theorem fileLines_ended : ∀ {s : Str}, Ended s → ∀ t : Str, fileLines (s ++ t) = fileLines s ++
    fileLines t
  | [], _, t => rfl
  | [c], h, t => by
    obtain rfl : c = 10 := by simpa [Ended] using h
    rfl
  | c :: d :: s, h, t => by
    have hrest : Ended (d :: s) := .inr (by simpa [Ended] using h)
    have ih := fileLines_ended hrest t
    rw [List.cons_append, fileLines, fileLines, ih]
    split_ifs with hc
    · rfl
    · -- the first line of what follows is there
      cases hlines : fileLines (d :: s) with
      | nil =>
        rw [fileLines] at hlines
        split_ifs at hlines
        cases hmore : fileLines s <;> simp [hmore, consLine] at hlines
      | cons l ls => rfl

theorem fileLines_open {s : Str} (h : 10 ∉ s) (hs : s ≠ []) : fileLines s = [s] := by
  induction s with
  | nil => exact absurd rfl hs
  | cons c s ih =>
    have hc : c ≠ 10 := fun e => h (e ▸ List.mem_cons_self)
    rw [fileLines, if_neg hc]
    cases s with
    | nil => rfl
    | cons d s => rw [ih (fun hm => h (List.mem_cons_of_mem _ hm)) (by simp)]; rfl

theorem fileLines_closed {s : Str} (h : 10 ∉ s) : fileLines (s ++ [10]) = [s ++ [10]] := by
  induction s with
  | nil => rfl
  | cons c s ih =>
    have hc : c ≠ 10 := fun e => h (e ▸ List.mem_cons_self)
    rw [List.cons_append, fileLines, if_neg hc, ih fun hm => h (List.mem_cons_of_mem _ hm)]
    rfl

/-- A text is ended lines, and what follows the last newline. -/
theorem exists_ended (s : Str) : ∃ front back, s = front ++ back ∧ Ended front ∧ 10 ∉ back := by
  induction s using List.reverseRecOn with
  | nil => exact ⟨[], [], rfl, .inl rfl, by simp⟩
  | append_singleton s c ih =>
    by_cases hc : c = 10
    · exact ⟨s ++ [c], [], by simp, .inr (by simp [hc]), by simp⟩
    · obtain ⟨front, back, rfl, hfront, hback⟩ := ih
      exact ⟨front, back ++ [c], by simp, hfront, by simp [hback, Ne.symm hc]⟩

theorem newlinesAfter_append : ∀ {cr : Bool} {s t : Str}, (∀ c ∈ t.head?, c ≠ 10) →
    newlinesAfter cr (s ++ t) = newlinesAfter cr s ++ newlinesAfter false t
  | cr, [], [], _ => by simp [newlinesAfter]
  | cr, [], c :: t, h => by
    have hc : c ≠ 10 := h c rfl
    simp [newlinesAfter, hc]
  | cr, c :: s, t, h => by
    rw [List.cons_append, newlinesAfter, newlinesAfter]
    split_ifs
    · exact newlinesAfter_append h
    · rw [newlinesAfter_append h, List.cons_append]
    · rw [newlinesAfter_append h, List.cons_append]

/-- A text that goes on with no newline is read line end by line end. -/
theorem universalNewlines_append {s t : Str} (h : ∀ c ∈ t.head?, c ≠ 10) :
    universalNewlines (s ++ t) = universalNewlines s ++ universalNewlines t :=
    newlinesAfter_append h

/-! ## Values -/

/-- No key comes twice in a tree whose keys are increasing. -/
theorem duplicateKey?_of_increasing (j : Json) (h : KeysIncreasing j) : duplicateKey? j = none := by
  have hrepeated : ∀ {ks seen : List Str}, (∀ k ∈ ks, k ∉ seen) → ks.Nodup →
      repeatedKey? seen ks = none := by
    intro ks
    induction ks with
    | nil => intros; rfl
    | cons k ks ih =>
      intro seen hseen hnd
      obtain ⟨hk, hnd⟩ := List.nodup_cons.mp hnd
      rw [repeatedKey?, if_neg (hseen k List.mem_cons_self)]
      refine ih (fun l hl => ?_) hnd
      rw [List.mem_cons, not_or]
      exact ⟨fun e => hk (e ▸ hl), hseen l (List.mem_cons_of_mem _ hl)⟩
  have helems : ∀ {xs : List Json}, (∀ x ∈ xs, duplicateKey? x = none) →
      duplicateKeyElems? xs = none := by
    intro xs
    induction xs with
    | nil => intro; rfl
    | cons x xs ih =>
      intro hxs
      rw [duplicateKeyElems?, hxs x List.mem_cons_self, ih fun y hy =>
        hxs y (List.mem_cons_of_mem _ hy)]
      rfl
  have hmembers : ∀ {kvs : List (Str × Json)}, (∀ p ∈ kvs, duplicateKey? p.2 = none) →
      duplicateKeyMembers? kvs = none := by
    intro kvs
    induction kvs with
    | nil => intro; rfl
    | cons p kvs ih =>
      intro hkvs
      obtain ⟨k, v⟩ := p
      rw [duplicateKeyMembers?, hkvs (k, v) List.mem_cons_self, ih fun q hq =>
        hkvs q (List.mem_cons_of_mem _ hq)]
      rfl
  induction j using Json.ind with
  | harr xs ih =>
    simp only [KeysIncreasing, elemsIncreasing_iff] at h
    exact helems fun x hx => ih x hx (h x hx)
  | hobj kvs ih =>
    simp only [KeysIncreasing, membersIncreasing_iff] at h
    have hnd : (kvs.map Prod.fst).Nodup := List.pairwise_map.mpr (h.1.imp fun hlt => ne_of_lt hlt)
    rw [duplicateKey?, hmembers fun p hp => ih p hp (h.2 p hp), hrepeated (by simp) hnd]
    rfl
  | _ => rfl

mutual

/-- What `_validate_value` lets pass. -/
def admits : PyVal → Bool
  | .float f => f.isFinite
  | .list xs => admitsElems xs
  | .dict items => admitsItems items
  | .tuple _ => false
  | _ => true

def admitsElems : List PyVal → Bool
  | [] => true
  | x :: xs => admits x && admitsElems xs

def admitsItems : List (PyKey × PyVal) → Bool
  | [] => true
  | (k, v) :: items => k.isStr && admits v && admitsItems items

end

theorem admitsElems_eq : ∀ xs, admitsElems xs = xs.all admits
  | [] => rfl
  | x :: xs => by rw [admitsElems, admitsElems_eq xs, List.all_cons]

theorem admitsItems_eq : ∀ items, admitsItems items = items.all fun p => p.1.isStr && admits p.2
  | [] => rfl
  | (k, v) :: items => by rw [admitsItems, admitsItems_eq items, List.all_cons]

mutual

theorem validateValue_iff (path : Str) : ∀ v, validateValue path v = .ok () ↔ admits v = true
  | .none | .bool _ | .int _ | .str _ => by simp [validateValue, admits]
  | .float f => by
    rw [validateValue, admits]
    split_ifs with h <;> simp [h]
  | .list xs => by rw [validateValue, admits, validateElems_iff path 0 xs]
  | .dict items => by rw [validateValue, admits, validateItems_iff path items]
  | .tuple _ => by simp [validateValue, admits]

theorem validateElems_iff (path : Str) : ∀ i xs, validateElems path i xs = .ok () ↔
    admitsElems xs = true
  | _, [] => by simp [validateElems, admitsElems]
  | i, x :: xs => by
    rw [validateElems, admitsElems, Bool.and_eq_true, ← validateValue_iff _ x,
      ← validateElems_iff path (i + 1) xs, bind_eq_ok, exists_unit]

theorem validateItems_iff (path : Str) : ∀ items, validateItems path items = .ok () ↔
    admitsItems items = true
  | [] => by simp [validateItems, admitsItems]
  | (.str k, v) :: items => by
    rw [validateItems, admitsItems, Bool.and_eq_true, Bool.and_eq_true,
      ← validateValue_iff (path ++ lit "." ++ k) v,
      ← validateItems_iff path items, bind_eq_ok, exists_unit]
    simp [PyKey.isStr]
  | (.none, _) :: _ | (.bool _, _) :: _ | (.int _, _) :: _ | (.float _, _) :: _ => by
    simp [validateItems, admitsItems, PyKey.isStr]

end

/-- Values that are the same pass both or neither. -/
theorem admits_same (v : PyVal) : ∀ w, Same v w → admits v = admits w := by
  induction v using PyVal.ind with
  | hlist xs ih =>
    intro w h
    cases h with
    | @list _ ys hxs =>
      have hall : ∀ {xs ys : List PyVal}, SameElems xs ys →
        (∀ x ∈ xs, ∀ w, Same x w → admits x = admits w) → admitsElems xs = admitsElems ys := by
        intro xs
        induction xs with
        | nil => intro ys h _; cases h; rfl
        | cons x xs ihxs =>
          intro ys h hx
          cases h with
          | cons hxy hrest =>
            rw [admitsElems, admitsElems, hx x List.mem_cons_self _ hxy, ihxs hrest fun z hz =>
              hx z (List.mem_cons_of_mem _ hz)]
      exact hall hxs ih
  | hdict items ih =>
    intro w h
    cases h with
    | @dict _ ys zs hitems hperm =>
      have hforall := forall₂_of_sameItems hitems
      have hall : ∀ {xs ys : List (PyKey × PyVal)},
        List.Forall₂ (fun a b => a.1 = b.1 ∧ Same a.2 b.2) xs ys →
          (∀ p ∈ xs, ∀ w, Same p.2 w → admits p.2 = admits w) →
          admitsItems xs = admitsItems ys := by
        intro xs ys h
        induction h with
        | nil => intro _; rfl
        | @cons a b xs ys hab _ ihxs =>
          intro hx
          obtain ⟨k, v⟩ := a
          obtain ⟨k', v'⟩ := b
          obtain ⟨rfl, hvv'⟩ := hab
          rw [admitsItems, admitsItems, hx (k, v) List.mem_cons_self v' hvv', ihxs fun p hp =>
            hx p (List.mem_cons_of_mem _ hp)]
      rw [admits, admits, hall hforall ih, admitsItems_eq, admitsItems_eq, hperm.all_eq]
  | htuple xs _ => intro w h; cases h
  | _ => intro w h; cases h; rfl

/-! ## Records -/

/-- What `record_preimage` asks of a record. -/
structure Shaped (record : V2Record) : Prop where
  fields : ∀ name ∈ requiredFields, (getItem record name).isSome = true
  only : ∀ p ∈ record, keyText p.1 ∈ requiredFields
  schema : isText (field record "schema_version") schemaVersion = true
  seq : isPositiveInt (field record "seq") = true
  prevHash : isHash (field record "prev_hash") = true
  recordHash : isHash (field record "record_hash") = true
  texts : ∀ name ∈ ["record_type", "recorded_at", "component", "actor", "action",
    "environment_ref"], isNonEmptyText (field record name) = true
  objects : ∀ name ∈ ["authority", "execution", "verification", "payload"],
    isObject (field record name) = true

theorem forM_raiseIf {names : List String} {b : String → Bool} {e : String → PyError} :
    (names.forM fun name => raiseIf (b name = false) (e name)) = .ok () ↔ ∀ name ∈ names,
    b name = true := by
  induction names with
  | nil => exact iff_of_true rfl (by simp)
  | cons name names ih =>
    change (raiseIf (b name = false) (e name) >>= fun _ => names.forM fun name =>
      raiseIf (b name = false) (e name)) = _ ↔ _
    rw [bind_eq_ok, exists_unit, raiseIf_eq_ok, ih, List.forall_mem_cons, Bool.not_eq_false]

theorem recordPreimage_iff {T : V2Texts} {record preimage : V2Record} :
    recordPreimage T record = .ok preimage ↔ Shaped record ∧ preimage = unhashed record := by
  simp only [recordPreimage, bind_eq_ok, exists_unit, raiseIf_eq_ok, forM_raiseIf,
    Bool.not_eq_false, not_not,
    List.filter_eq_nil_iff, List.forall_mem_map, Option.isNone_iff_eq_none, decide_eq_true_eq,
    Except.ok.injEq]
  constructor
  · rintro ⟨hfields, honly, hschema, hseq, hprev, hhash, htexts, hobjects, rfl⟩
    exact ⟨⟨fun name hname => Option.isSome_iff_ne_none.mpr (hfields name hname), honly, hschema,
      hseq, hprev, hhash, htexts, hobjects⟩, rfl⟩
  · rintro ⟨h, rfl⟩
    exact ⟨fun name hname => Option.isSome_iff_ne_none.mp (h.fields name hname), h.only, h.schema,
      h.seq, h.prevHash, h.recordHash, h.texts, h.objects, rfl⟩

/-- What is read from the text of a record. -/
def reread (S : KeySort) (record : V2Record) : V2Record :=
  match reload S (.dict record) with
  | .dict items => items
  | _ => []

section

variable {S : KeySort} {record : V2Record}

theorem reread_spec (hd : StrDict record) : reload S (.dict record) = .dict (reread S record) ∧
    StrDict (reread S record) ∧
    (reread S record).Perm (record.map fun p => (p.1, reload S p.2)) := by
  obtain ⟨items, hreload, hd', hperm⟩ := reload_dict S hd
  have hreread : reread S record = items := by rw [reread, hreload]
  rw [hreread]
  exact ⟨hreload, hd', hperm⟩

/-- A field is read as what was written to it. -/
theorem getItem_reread (hd : StrDict record) (key : Str) :
    getItem (reread S record) key = (getItem record key).map (reload S) := by
  obtain ⟨-, hd', hperm⟩ := reread_spec (S := S) hd
  rw [getItem, find_key_perm hperm hd'.nodup, List.find?_map, getItem, Option.map_map,
    Option.map_map]
  rfl

theorem field_reread (hd : StrDict record) {name : String}
    (hname : (getItem record (lit name)).isSome = true) :
    field (reread S record) name = reload S (field record name) := by
  obtain ⟨v, hv⟩ := Option.isSome_iff_exists.mp hname
  simp [field, getItem_reread hd, hv]

theorem shaped_reread (hd : StrDict record) (h : Shaped record) : Shaped (reread S record) := by
  have hfield : ∀ name : String, lit name ∈ requiredFields → field (reread S record) name = reload S
      (field record name) :=
    fun name hname => field_reread hd (h.fields _ hname)
  have hatom : ∀ (name : String) (p : PyVal → Bool), lit name ∈ requiredFields →
    p (field record name) = true →
      (∀ v, p v = true → p (reload S v) = true) → p (field (reread S record) name) = true := by
    intro name p hname hp hreload
    rw [hfield name hname]
    exact hreload _ hp
  refine ⟨fun name hname => ?_, fun p hp => ?_, ?_, ?_, ?_, ?_, fun name hname => ?_,
    fun name hname => ?_⟩
  · rw [getItem_reread hd, Option.isSome_map]
    exact h.fields name hname
  · obtain ⟨q, hq, rfl⟩ := List.mem_map.mp ((reread_spec (S := S) hd).2.2.mem_iff.mp hp)
    exact h.only q hq
  · refine hatom "schema_version" (fun v => isText v schemaVersion) (by decide) h.schema
      fun v hv => ?_
    obtain rfl := eq_str_of_isText hv
    exact hv
  · refine hatom "seq" isPositiveInt (by decide) h.seq fun v hv => ?_
    cases v <;> exact hv
  · refine hatom "prev_hash" isHash (by decide) h.prevHash fun v hv => ?_
    cases v <;> exact hv
  · refine hatom "record_hash" isHash (by decide) h.recordHash fun v hv => ?_
    cases v <;> exact hv
  · have hreq : lit name ∈ requiredFields := by revert name; decide
    refine hatom name isNonEmptyText hreq (h.texts name hname) fun v hv => ?_
    cases v <;> exact hv
  · have hreq : lit name ∈ requiredFields := by revert name; decide
    refine hatom name isObject hreq (h.objects name hname) fun v hv => ?_
    cases v <;> exact hv

end

/-- A record that carries its own hash. -/
structure Sealed (P : Platform) (record : V2Record) : Prop where
  parsed : Parsed (.dict record)
  shaped : Shaped record
  hashed : ∃ hash, getItem record (lit "record_hash") = some (.str hash) ∧
    sha256Hex P (.dict (unhashed record)) = .ok hash

theorem sha256Hex_congr {P : Platform} {v w : PyVal} (hadmits : admits v = admits w)
    (hsort : sortable v = sortable w)
    (htree : toJson P.keySort true v = toJson P.keySort true w) {h : Str}
    (hv : sha256Hex P v = .ok h) : sha256Hex P w = .ok h := by
  simp only [sha256Hex, canonicalize, dumps, bind_eq_ok, exists_unit, validateValue_iff,
    Bool.true_and] at hv ⊢
  rwa [hadmits, hsort, htree] at hv

/-- **A record that carries its own hash still does after it was written and read.** -/
theorem Sealed.reread {P : Platform} {record : V2Record} (h : Sealed P record) :
    Sealed P (reread P.keySort record) := by
  obtain ⟨hparsed, hshaped, hash, hget, hsha⟩ := h
  cases hparsed with
  | dict hd hitems =>
  have hparsed : Parsed (.dict record) := .dict hd hitems
  obtain ⟨hreload, hd', hperm⟩ := reread_spec (S := P.keySort) hd
  have hparsed' : Parsed (.dict (Ledger.reread P.keySort record)) := hreload ▸ parsed_ofJson _
  refine ⟨hparsed', shaped_reread hd hshaped, hash, by rw [getItem_reread hd, hget]; rfl, ?_⟩
  -- the hash goes before the reload, and after it
  have hperm' : (unhashed (Ledger.reread P.keySort record)).Perm
      ((unhashed record).map fun p => (p.1, reload P.keySort p.2)) := by
    have hfilter := hperm.filter fun p => decide (p.1 ≠ .str (lit "record_hash"))
    rwa [List.filter_map] at hfilter
  have hpu := parsed_unhashed hparsed
  have hpu' := parsed_unhashed hparsed'
  have htree : toJson P.keySort true (.dict (unhashed (Ledger.reread P.keySort record)))
      = toJson P.keySort true (.dict (unhashed record)) := by
    cases hpu with
    | dict hdu hitemsu =>
      refine toJson_of_perm_reload P.keySort hdu (fun p hp => ?_) hperm'
      exact stable_of_strKeyed _ _ (strKeyed_of_parsed _ (parsedItems_iff.mp hitemsu p hp))
  have hsame : Same (.dict (unhashed record)) (.dict (unhashed (Ledger.reread P.keySort record))) :=
    same_of_toJson_eq P.keySort _ _ hpu hpu' htree.symm
  exact sha256Hex_congr (admits_same _ _ hsame)
    (by rw [sortable_of_parsed _ hpu, sortable_of_parsed _ hpu']) htree.symm hsha

/-! ## What the verifier accepts -/

section

variable {P : Platform} {T : V2Texts}

theorem isPositiveInt_iff {v : PyVal} : isPositiveInt v = true ↔ ∃ i : Int, v = .int i ∧ 1 ≤ i := by
  cases v <;> simp [isPositiveInt]

/-- A record passes the loop exactly when it carries its own hash, and follows the record before it.
-/
theorem checkRecord_iff {st : V2State} {record : V2Record} (hparsed : Parsed (.dict record))
    {st' : V2State} :
    checkRecord P T st record = .ok (.inr st') ↔ Sealed P record ∧
    prevMark record = (.str st.expectedPrev, st.expectedSeq - 1) ∧
      ∃ hash, mark record = (.str hash, st.expectedSeq) ∧
      st' = ⟨st.expectedSeq + 1, hash, st.count + 1, hash⟩ := by
  constructor
  · intro h
    obtain ⟨hash, rfl, hc⟩ := checkRecord_eq_inr h
    have hshaped : Shaped record := by
      cases hpre : recordPreimage T record with
      | error e =>
        simp only [checkRecord, hpre] at h
        split at h <;> cases h
      | ok preimage => exact (recordPreimage_iff.mp hpre).1
    exact ⟨⟨hparsed, hshaped, hash, hc.recordHash, hc.hashed⟩, hc.prevMark_eq, hash,
      hc.mark_eq, rfl⟩
  · rintro ⟨⟨-, hshaped, hash, hget, hsha⟩, hprev, hash', hmark, rfl⟩
    obtain ⟨seq, hseq, -⟩ := isPositiveInt_iff.mp hshaped.seq
    simp only [prevMark, mark, seqOf, hseq, Prod.mk.injEq] at hprev hmark
    obtain ⟨hhash, rfl⟩ := hmark
    have hsame : hash = hash' := by
      rw [field, hget, Option.getD_some] at hhash
      exact PyVal.str.inj hhash
    subst hsame
    rw [checkRecord, recordPreimage_iff.mpr ⟨hshaped, rfl⟩]
    simp only [hseq, hprev.1, hsha, hhash, isText_iff.mpr, ne_eq, not_true_eq_false, if_false,
      Bool.true_eq_false]

/-- **What a valid rest of a file is**, and of nothing else. -/
theorem verifyLines_iff {lines : List Str} {n : Nat} {st : V2State} :
    (∃ c head m, verifyLines P T n st lines = .ok (.valid c head m)) ↔ ∃ records,
    jsonlRecords T n lines = .ok records ∧
      (∀ r ∈ records, Sealed P r) ∧ Linked prevMark mark (.str st.expectedPrev, st.expectedSeq - 1)
      records := by
  induction lines generalizing n st with
  | nil => exact iff_of_true ⟨_, _, _, rfl⟩ ⟨[], rfl, by simp, trivial⟩
  | cons line lines ih =>
    constructor
    · rintro ⟨c, head, m, h⟩
      obtain ⟨record, hrecord, h⟩ := bind_eq_ok.mp h
      obtain ⟨answer, hanswer, h⟩ := bind_eq_ok.mp h
      cases answer with
      | inl verdict => exact absurd (Except.ok.inj h) (checkRecord_not_valid hanswer)
      | inr st' =>
        obtain ⟨hsealed, hprev, hash, hmark, rfl⟩ :=
          (checkRecord_iff (parsed_of_jsonlRecord hrecord)).mp hanswer
        obtain ⟨records, hrecords, hall, hlinked⟩ := ih.mp ⟨c, head, m, h⟩
        refine ⟨record :: records, ?_, List.forall_mem_cons.mpr ⟨hsealed, hall⟩, hprev, ?_⟩
        · simp only [jsonlRecords, hrecord, hrecords]
          rfl
        · rw [hmark]
          simpa using hlinked
    · rintro ⟨records, h, hall, hlinked⟩
      obtain ⟨record, hrecord, h⟩ := bind_eq_ok.mp h
      obtain ⟨records', hrecords, h⟩ := bind_eq_ok.mp h
      obtain rfl := Except.ok.inj h
      obtain ⟨hsealed, hall⟩ := List.forall_mem_cons.mp hall
      obtain ⟨hprev, hlinked⟩ := hlinked
      obtain ⟨hash, hmark⟩ : ∃ hash, mark record = (.str hash, st.expectedSeq) := by
        obtain ⟨-, hshaped, hash, hget, -⟩ := hsealed
        obtain ⟨seq, hseq, -⟩ := isPositiveInt_iff.mp hshaped.seq
        refine ⟨hash, ?_⟩
        have hnum : seq - 1 = st.expectedSeq - 1 := by
          simpa [prevMark, seqOf, hseq] using (Prod.mk.inj hprev).2
        have hfield : field record "record_hash" = .str hash := by simp [field, hget]
        simp only [mark, seqOf, hseq, hfield, Prod.mk.injEq, true_and]
        omega
      have hstep := (checkRecord_iff (P := P) (T := T) (parsed_of_jsonlRecord hrecord)).mpr
        ⟨hsealed, hprev, hash, hmark, rfl⟩
      rw [hmark] at hlinked
      obtain ⟨c, head, m, hrest⟩ : ∃ c head m,
        verifyLines P T (n + 1) ⟨st.expectedSeq + 1, hash, st.count + 1, hash⟩ lines
          = .ok (.valid c head m) := ih.mpr ⟨records', hrecords, hall, by simpa using hlinked⟩
      refine ⟨c, head, m, ?_⟩
      simp only [verifyLines, hrecord, hstep, bind, Except.bind]
      exact hrest

/-- The lines of a file and the records in them, sealed and linked from the first hash on. -/
structure Segment (P : Platform) (T : V2Texts) (initial : Str) (data : Bytes) (lines : List Str)
    (records : List V2Record) : Prop where
  split : textLines data = .ok lines
  read : jsonlRecords T 1 lines = .ok records
  sealed : ∀ r ∈ records, Sealed P r
  linked : Linked prevMark mark (.str initial, 0) records

theorem segment_nil (initial : Str) : Segment P T initial [] [] [] :=
  ⟨rfl, rfl, by simp, trivial⟩

theorem Segment.records {initial : Str} {data : Bytes} {lines : List Str} {records : List V2Record}
    (h : Segment P T initial data lines records) : segmentRecords T data = .ok records := by
  rw [segmentRecords]
  split_ifs with hdata
  · subst hdata
    obtain rfl := Except.ok.inj h.split
    exact h.read
  · rw [iterJsonl, h.split]
    exact h.read

/-- `V2Segment.verify` finds so many records. -/
def SegmentValid (P : Platform) (T : V2Texts) (exc : PyError → Str) (initial : Str) (data : Bytes)
    (count : Nat) : Prop :=
  ∃ head seq, segmentVerify P T exc initial data = .ok (.result (.valid count head seq))

/-- **What `verify` accepts.** -/
theorem segmentValid_iff {exc : PyError → Str} {initial : Str} {data : Bytes} {count : Nat} :
    SegmentValid P T exc initial data count ↔ data ≠ [] ∧ isHash (.str initial) = true ∧
      ∃ lines records, Segment P T initial data lines records ∧ records.length = count := by
  constructor
  · rintro ⟨head, seq, h⟩
    rw [segmentVerify] at h
    by_cases hdata : data = []
    · rw [if_pos hdata] at h
      cases h
    rw [if_neg hdata] at h
    refine ⟨hdata, ?_⟩
    -- the verdict is the one of `verify_jsonl`
    obtain ⟨head', seq', hverify⟩ : ∃ head seq, verifyJsonl P T data (.str initial) =
        .ok (.valid count head seq) := by
      cases hcheck : segmentCheck P T initial data with
      | error e =>
        simp only [hcheck] at h
        by_cases hcaught : segmentCaught e = true
        · simp [hcaught] at h
        · simp [hcaught] at h
      | ok p =>
        obtain ⟨verdict, records⟩ := p
        obtain ⟨verdict', hverify, hrest⟩ := bind_eq_ok.mp hcheck
        obtain ⟨records', -, hrest⟩ := bind_eq_ok.mp hrest
        obtain ⟨rfl, rfl⟩ := Prod.mk.inj (Except.ok.inj hrest)
        simp only [hcheck] at h
        split at h
        · next heq => cases heq
        · next c hd sq first rest heq =>
          obtain ⟨rfl, rfl⟩ := Prod.mk.inj (Except.ok.inj heq)
          obtain ⟨prevHash, -, h⟩ := bind_eq_ok.mp h
          split_ifs at h
          · obtain ⟨rfl, -, -⟩ := V2Verdict.valid.inj (SegmentVerdict.result.inj (Except.ok.inj h))
            exact ⟨_, _, hverify⟩
          · cases h
        · next heq =>
          obtain ⟨rfl, rfl⟩ := Prod.mk.inj (Except.ok.inj heq)
          obtain rfl := SegmentVerdict.result.inj (Except.ok.inj h)
          exact ⟨_, _, hverify⟩
    obtain ⟨records, hiter, hcount, -, -, -⟩ := verifyJsonl_valid hverify
    simp only [verifyJsonl] at hverify
    split_ifs at hverify with hinitial
    · obtain ⟨lines, hlines, hverify⟩ := bind_eq_ok.mp hverify
      obtain ⟨records', hread, hall, hlinked⟩ := verifyLines_iff.mp ⟨_, _, _, hverify⟩
      rw [iterJsonl, hlines] at hiter
      obtain rfl : records' = records := Except.ok.inj (hread.symm.trans hiter)
      exact ⟨hinitial, lines, records', ⟨hlines, hread, hall, by simpa using hlinked⟩, hcount.symm⟩
    · cases hverify
  · rintro ⟨hdata, hinitial, lines, records, hseg, rfl⟩
    obtain ⟨c, head, m, hverify⟩ : ∃ c head m,
        verifyLines P T 1 ⟨1, initial, 0, genesisHash⟩ lines = .ok (.valid c head m) :=
      verifyLines_iff.mpr ⟨records, hseg.read, hseg.sealed, by simpa using hseg.linked⟩
    have hjsonl : verifyJsonl P T data (.str initial) = .ok (.valid c head m) := by
      simp only [verifyJsonl, hinitial, if_true, hseg.split]
      exact hverify
    obtain ⟨records', hiter, rfl, -, -, -⟩ := verifyJsonl_valid hjsonl
    rw [iterJsonl, hseg.split] at hiter
    obtain rfl : records = records' := Except.ok.inj (hseg.read.symm.trans hiter)
    refine ⟨head, m, ?_⟩
    have hcheck : segmentCheck P T initial data = .ok (.valid records.length head m, records) := by
      simp only [segmentCheck, hjsonl, hseg.records, bind, Except.bind]
    rw [segmentVerify, if_neg hdata, hcheck]
    cases records with
    | nil => rfl
    | cons first rest =>
      have hfirst : field first "prev_hash" = .str initial := (Prod.mk.inj hseg.linked.1).1
      have hitem : recordItem first "prev_hash" = .ok (.str initial) := by
        rw [recordItem, getItem_of_field hfirst (by simp)]
      simp [hitem, isText, bind, Except.bind]

end

end Ledger
