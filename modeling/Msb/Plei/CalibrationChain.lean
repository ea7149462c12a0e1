import Msb.Infra.JsonUnsorted
import Msb.Infra.Run
import Msb.Plei.Calibration

/-!
# The chain of the calibration store

Any number of stores on one file. A store reads the last hash when it is opened, and remembers its
own from then on; so what another one has recorded in between is not in its chain.
-/

namespace Plei.Calibration

open Py Ledger Machine

/-! ## What is recorded -/

inductive Entry where
  | prediction (x : Prediction)
  | outcome (x : Outcome)

namespace Entry

def recordType : Entry → Str
  | .prediction _ => lit "PREDICTION"
  | .outcome _ => lit "OUTCOME"

def items : Entry → Items
  | .prediction x => x.items
  | .outcome x => x.items

def record (P : Platform) (prevHash : PyVal) (file : Option Bytes) : Entry →
    Except PyError (Bytes × PyVal)
  | .prediction x => recordPrediction P prevHash file x
  | .outcome x => recordOutcome P prevHash file x

theorem record_eq (P : Platform) (prevHash : PyVal) (file : Option Bytes) (e : Entry) :
    e.record P prevHash file = appendAndHash P prevHash file e.recordType e.items := by
  cases e <;> rfl

end Entry

/-! ### Values of the fields -/

section
variable {specs : List FieldSpec}

/-- The names of the fields, in their order. -/
theorem Instance.keys (x : Instance specs) :
    x.items.map Prod.fst = specs.map fun f => PyKey.str f.name := by
  obtain ⟨items, h⟩ := x
  induction h with
  | nil => rfl
  | cons hab _ ih => rw [List.map_cons, List.map_cons, hab.1, ih]

theorem parsed_of_admits {t : FieldType} {v : PyVal} (h : t.admits v = true) : Parsed v := by
  have hdict : ∀ {is : PyVal → Bool}, (∀ w, is w = true → Parsed w) → ∀ {v}, isDictOf is v = true →
      Parsed v := by
    intro is his v hv
    cases v with
    | dict items =>
      simp only [isDictOf, Bool.and_eq_true, List.all_eq_true, decide_eq_true_eq] at hv
      exact .dict ⟨fun p hp => (hv.1 p hp).1, hv.2⟩
        (parsedItems_iff.mpr fun p hp => his _ (hv.1 p hp).2)
    | _ => cases hv
  have hfloat : ∀ w, isFloat w = true → Parsed w := by
    intro w hw
    cases w <;> first | exact .bool _ | exact .int _ | exact .float _ | cases hw
  have hbool : ∀ w, isBool w = true → Parsed w := by
    intro w hw
    cases w <;> first | exact .bool _ | cases hw
  cases t with
  | str => cases v <;> first | exact .str _ | cases h
  | float => exact hfloat v h
  | int => cases v <;> first | exact .bool _ | exact .int _ | cases h
  | bool => exact hbool v h
  | floats => exact hdict hfloat h
  | bools => exact hdict hbool h

/-- `loads` can return the dict of an instance. -/
theorem Instance.parsed (hspecs : (specs.map FieldSpec.name).Nodup) (x : Instance specs) :
    Parsed (.dict x.items) := by
  have hkeys := x.keys
  obtain ⟨items, h⟩ := x
  refine .dict ⟨fun p hp => ?_, ?_⟩ (parsedItems_iff.mpr fun p hp => ?_)
  · have hmem : p.1 ∈ specs.map fun f => PyKey.str f.name := hkeys ▸ List.mem_map_of_mem hp
    obtain ⟨f, -, hf⟩ := List.mem_map.mp hmem
    rw [← hf]
    rfl
  · show (items.map Prod.fst).Nodup
    rw [hkeys]
    have hmap : specs.map (fun f => PyKey.str f.name) = (specs.map FieldSpec.name).map
      PyKey.str := by simp
    rw [hmap]
    exact hspecs.map fun a b hab => PyKey.str.inj hab
  · clear hkeys hspecs
    induction h with
    | nil => cases hp
    | cons hab _ ih =>
      rcases List.mem_cons.mp hp with rfl | hp
      · exact parsed_of_admits hab.2
      · exact ih hp

end

theorem Entry.parsed (e : Entry) : Parsed (.dict e.items) := by
  cases e with
  | prediction x => exact x.parsed (by decide)
  | outcome x => exact x.parsed (by decide)

/-! ## The lines -/

namespace Entry

variable (P : Platform)

/-- `fields_json` -/
def fieldsText (e : Entry) : Str := render lineStyle (toJson P.keySort true (.dict e.items))

/-- The hash of a record behind one with the hash `h`. -/
def nextHash (h : Str) (e : Entry) : Str :=
  (P.hexdigest ((encode (h ++ e.fieldsText P)).getD [])).take 40

/-- The record. -/
def dict (e : Entry) (h : Str) : Items := serialize e.recordType e.items h

/-- The line of a record, without its newline. -/
def line (e : Entry) (h : Str) : Str := render lineStyle (toJson P.keySort false (.dict (e.dict h)))

/-- No text of the record has a high surrogate followed by a low one: `json.loads` would make one
character of them. -/
def Clean (e : Entry) : Prop := (toJson P.keySort true (.dict e.items)).Unpaired

end Entry

/-- Texts with a UTF-8 form. -/
def Encodable (s : Str) : Prop := ∀ c ∈ s, (scalar? c).isSome = true

theorem encodable_of_ascii {s : Str} (h : Ascii s) : Encodable s := by
  intro c hc
  have hvalid : c.val.isValidChar := Or.inl (Nat.lt_trans (h c hc) (by decide))
  rw [scalar?, dif_pos hvalid]
  rfl

theorem Encodable.append {s t : Str} (hs : Encodable s) (ht : Encodable t) :
    Encodable (s ++ t) := by
  intro c hc
  rcases List.mem_append.mp hc with hc | hc
  · exact hs c hc
  · exact ht c hc

theorem Encodable.encode {s : Str} (h : Encodable s) : encode s = some ((Py.encode s).getD []) := by
  obtain ⟨b, hb⟩ := encode_of_scalar h
  rw [hb]
  rfl

section
variable (P : Platform) (e : Entry) {h : Str}

theorem ascii_fieldsText : Ascii (e.fieldsText P) := ascii_render lineStyle rfl _

/-- A text of the source. -/
theorem ascii_lit {s : String} (h : (lit s).all (fun c => c.val < 128) = true) : Ascii (lit s) :=
  fun c hc => by
  simpa using List.all_eq_true.mp h c hc

theorem ascii_recordType : Ascii e.recordType := by
  cases e <;> exact ascii_lit rfl

theorem encodable_nextHash (h : Str) : Encodable (e.nextHash P h) := fun c hc =>
  scalar?_hex _ c (List.mem_of_mem_take hc)

theorem line_chars (h : Str) : ∀ c ∈ e.line P h, 32 ≤ c.val :=
  noControl_render (by simp [lineStyle]) (by simp [lineStyle]) _

theorem ascii_line (h : Str) : Ascii (e.line P h ++ [10]) := by
  intro c hc
  rcases List.mem_append.mp hc with hc | hc
  · exact ascii_render lineStyle rfl _ c hc
  · rw [List.mem_singleton.mp hc]
    decide

variable {e} in
theorem computeHash_eq (hh : Encodable h) :
    computeHash P (e.fieldsText P) (.str h) = .ok (e.nextHash P h) := by
  have hencode := (hh.append (encodable_of_ascii (ascii_fieldsText P e))).encode
  rw [computeHash, encodeE_eq_ok.mpr hencode]
  rfl

theorem fieldsJson_eq : fieldsJson P (.dict e.items) = .ok (e.fieldsText P) := by
  rw [fieldsJson, dumps, sortable_of_parsed _ e.parsed]
  rfl

/-- **What a store appends.** -/
theorem record_eq (hh : Encodable h) (file : Option Bytes) :
    e.record P (.str h) file =
    .ok (file.getD [] ++ (encode (e.line P (e.nextHash P h) ++ [10])).getD [],
      .str (e.nextHash P h)) := by
  have hline := encodeE_eq_ok.mpr (encodable_of_ascii (ascii_line P e (e.nextHash P h))).encode
  rw [Entry.record_eq, appendAndHash, fieldsJson_eq]
  simp only [bind, Except.bind, computeHash_eq P hh]
  rw [show dumps P.keySort false lineStyle
    (.dict (serialize e.recordType e.items (e.nextHash P h))) =
    .ok (e.line P (e.nextHash P h)) from rfl]
  simp only [hline]

theorem parsed_dict (h : Str) : Parsed (.dict (e.dict h)) := by
  have hkeys : ([.str (lit "type"), .str (lit "_fields"), .str (lit "_hash")] :
    List PyKey).Nodup := by decide
  refine .dict ⟨fun p hp => ?_, hkeys⟩ (parsedItems_iff.mpr fun p hp => ?_)
  all_goals
    simp only [Entry.dict, serialize, List.mem_cons, List.not_mem_nil, or_false] at hp
    rcases hp with rfl | rfl | rfl
  · rfl
  · rfl
  · rfl
  · exact .str _
  · exact e.parsed
  · exact .str _

theorem unpaired_record (hclean : e.Clean P) (hh : Encodable h) :
    (toJson P.keySort true (.dict (e.dict h))).Unpaired := by
  refine unpaired_dict fun p hp => ?_
  simp only [Entry.dict, serialize, List.mem_cons, List.not_mem_nil, or_false] at hp
  rcases hp with rfl | rfl | rfl
  · exact ⟨unpaired_of_ascii (ascii_lit rfl), unpaired_of_ascii (ascii_recordType e)⟩
  · exact ⟨unpaired_of_ascii (ascii_lit rfl), hclean⟩
  · exact ⟨unpaired_of_ascii (ascii_lit rfl), unpaired_of_scalar hh⟩

/-- A line reads back as its record. -/
theorem loads_line (hclean : e.Clean P) (hh : Encodable h) :
    strip (e.line P h ++ [10]) ≠ [] ∧ loads (strip (e.line P h ++ [10])) = .ok (.dict (e.dict h)) :=
  loads_strip_dict P.keySort (parsed_dict e h) (unpaired_record P e hclean hh) (by simp [isSpace])

end

/-! ## The file -/

/-- A record as a store writes it. -/
abbrev Stored := Entry × Str

def Stored.raw (r : Stored) : PyVal := .dict (r.1.dict r.2)

/-- The text of the records, one line for each. -/
def storedText (P : Platform) : List Stored → Str
  | [] => []
  | r :: rs => r.1.line P r.2 ++ 10 :: storedText P rs

section
variable (P : Platform)

theorem storedText_append (r : Stored) : ∀ rs : List Stored,
    storedText P (rs ++ [r]) = storedText P rs ++ (r.1.line P r.2 ++ [10])
  | [] => rfl
  | s :: rs => by
    rw [List.cons_append, storedText, storedText, storedText_append r rs]
    simp

theorem ascii_storedText : ∀ rs : List Stored, Ascii (storedText P rs)
  | [] => fun c hc => absurd hc List.not_mem_nil
  | r :: rs => by
    intro c hc
    rw [storedText, List.append_cons] at hc
    rcases List.mem_append.mp hc with hc | hc
    · exact ascii_line P r.1 _ c hc
    · exact ascii_storedText rs c hc

/-- No carriage return, so that text mode changes nothing. -/
theorem storedText_no_return : ∀ rs : List Stored, 13 ∉ storedText P rs
  | [] => List.not_mem_nil
  | r :: rs => by
    intro hc
    rcases List.mem_append.mp hc with hc | hc
    · exact absurd (line_chars P r.1 _ _ hc) (by decide)
    · rcases List.mem_cons.mp hc with hc | hc
      · exact absurd hc (by decide)
      · exact storedText_no_return rs hc

end

theorem fileLines_line {l : Str} (h : 10 ∉ l) (s : Str) :
    fileLines (l ++ 10 :: s) = (l ++ [10]) :: fileLines s := by
  induction l with
  | nil => rfl
  | cons c l ih =>
    have hc : c ≠ 10 := fun e => h (e ▸ List.mem_cons_self)
    rw [List.cons_append, fileLines, if_neg hc, ih fun hl => h (List.mem_cons_of_mem _ hl)]
    rfl

/-- **What was appended is read back**, line by line. -/
theorem parsedLines_storedText (P : Platform) : ∀ rs : List Stored,
    (∀ r ∈ rs, r.1.Clean P ∧ Encodable r.2) →
    parsedLines (fileLines (storedText P rs)) = rs.map Stored.raw
  | [], _ => rfl
  | r :: rs, hclean => by
    have hline : 10 ∉ r.1.line P r.2 := fun hc => absurd (line_chars P r.1 _ _ hc) (by decide)
    obtain ⟨hne, hread⟩ :=
      loads_line P r.1 (hclean r List.mem_cons_self).1 (hclean r List.mem_cons_self).2
    rw [storedText, fileLines_line hline, List.map_cons,
      ← parsedLines_storedText P rs fun s hs => hclean s (List.mem_cons_of_mem _ hs)]
    rw [parsedLines, List.filterMap_cons]
    simp only [if_neg hne, hread]
    rfl

/-- The file with these records; it may be missing as long as there are none. -/
structure Holds (P : Platform) (file : Option Bytes) (rs : List Stored) : Prop where
  text : file.getD [] = (encode (storedText P rs)).getD []
  missing : file = none → rs = []
  clean : ∀ r ∈ rs, r.1.Clean P ∧ Encodable r.2

section
variable {P : Platform} {file : Option Bytes} {rs : List Stored}

theorem rawRecords_holds (hfile : Holds P file rs) : rawRecords file = .ok (rs.map Stored.raw) := by
  cases file with
  | none => rw [hfile.missing rfl]; rfl
  | some data =>
    have hencode := (encodable_of_ascii (ascii_storedText P rs)).encode
    rw [← hfile.text, Option.getD_some] at hencode
    simp only [rawRecords, decode_encode hencode, universalNewlines_of_not_mem
      (storedText_no_return P rs), parsedLines_storedText P rs hfile.clean]

/-- **A call appends one record**, behind the hash that the store remembers. -/
theorem holds_record (hfile : Holds P file rs) {h : Str} (hh : Encodable h) {e : Entry}
    (hclean : e.Clean P) : ∃ data,
    e.record P (.str h) file = .ok (data, .str (e.nextHash P h)) ∧
    Holds P (some data) (rs ++ [(e, e.nextHash P h)]) := by
  refine ⟨_, record_eq P e hh file, ?_, nofun, fun r hr => ?_⟩
  · have happend := encode_append (encodable_of_ascii (ascii_storedText P rs)).encode
      (encodable_of_ascii (ascii_line P e (e.nextHash P h))).encode
    rw [storedText_append, happend, hfile.text, Option.getD_some]
  · rcases List.mem_append.mp hr with hr | hr
    · exact hfile.clean r hr
    · rw [List.mem_singleton.mp hr]
      exact ⟨hclean, encodable_nextHash P e h⟩

end

/-! ## The chain -/

/-- The hash of the last record, or the one before them. -/
def lastHash (h : Str) (rs : List Stored) : Str := (rs.getLast?.map Prod.snd).getD h

@[simp] theorem lastHash_concat (h : Str) (rs : List Stored) (r : Stored) :
    lastHash h (rs ++ [r]) = r.2 := by
  simp [lastHash]

theorem lastHash_cons (h : Str) (r : Stored) (rs : List Stored) :
    lastHash h (r :: rs) = lastHash r.2 rs := by
  cases rs using List.reverseRecOn with
  | nil => rfl
  | append_singleton rs s => rw [← List.cons_append, lastHash_concat, lastHash_concat]

/-- Every hash is the one of its record behind the record before. -/
def Chained (P : Platform) (h : Str) : List Stored → Prop
  | [] => True
  | r :: rs => r.2 = r.1.nextHash P h ∧ Chained P r.2 rs

section
variable (P : Platform)

theorem chained_append (r : Stored) : ∀ {h : Str} {rs : List Stored},
    Chained P h (rs ++ [r]) ↔ Chained P h rs ∧ r.2 = r.1.nextHash P (lastHash h rs)
  | h, [] => by simp [Chained, lastHash]
  | h, s :: rs => by
    rw [List.cons_append, Chained, Chained, chained_append r, lastHash_cons, and_assoc]

@[simp] theorem hashOf_dict (e : Entry) (h : Str) : hashOf (e.dict h) = .str h := rfl

/-- A store that is opened now goes on from the last hash. -/
theorem readChain_holds {file : Option Bytes} {rs : List Stored} (hfile : Holds P file rs) :
    readChain file = .ok (.str (lastHash [] rs)) := by
  rw [readChain, rawRecords_holds hfile]
  cases rs using List.reverseRecOn with
  | nil => rfl
  | append_singleton rs r =>
    rw [lastHash_concat]
    simp only [bind, Except.bind, List.map_append, List.map_cons, List.map_nil,
      List.getLast?_concat]
    rfl

/-- What `verify_chain` does with a record of a store. -/
theorem verifyRecords_raw (lib : CalibrationLib) {h : Str} (hh : Encodable h) (r : Stored) (i : Nat)
    (raws : List PyVal) : verifyRecords lib P i (.str h) (r.raw :: raws) =
      if r.2 ≠ [] ∧ r.2 ≠ r.1.nextHash P h then
        .ok (false, lit "hash mismatch at record " ++ (intLit i).text ++ lit ": expected " ++
          (r.1.nextHash P h).take 12 ++ lit ", got " ++ r.2.take 12)
      else verifyRecords lib P (i + 1) (.str r.2) raws := by
  have hfields : getItem (r.1.dict r.2) (lit "_fields") = some (.dict r.1.items) := rfl
  have hmismatch : (truthy (.str r.2) && !isText (.str r.2) (r.1.nextHash P h)) = true ↔
      r.2 ≠ [] ∧ r.2 ≠ r.1.nextHash P h := by
    simp [truthy, isText]
  rw [Stored.raw, verifyRecords]
  simp only [dictOf, bind, Except.bind, hashOf_dict, hfields, fieldsJson_eq, computeHash_eq P hh,
    hmismatch]
  rfl

theorem verifyRecords_chain (lib : CalibrationLib) {rs : List Stored} : ∀ {h : Str}, Encodable h →
    Chained P h rs → ∀ i,
    verifyRecords lib P i (.str h) (rs.map Stored.raw) = .ok (true, lit "chain intact") := by
  induction rs with
  | nil => exact fun _ _ _ => rfl
  | cons r rs ih =>
    intro h hh hchain i
    rw [List.map_cons, verifyRecords_raw P lib hh, if_neg fun hne => hne.2 hchain.1]
    exact ih (hchain.1 ▸ encodable_nextHash P r.1 h) hchain.2 (i + 1)

/-- **Records with hashes that verify are a chain.** -/
theorem chained_of_verifies (lib : CalibrationLib) {rs : List Stored}
    (hhashed : ∀ r ∈ rs, r.2 ≠ []) : ∀ {h : Str} {i : Nat} {message : Str}, Encodable h →
      verifyRecords lib P i (.str h) (rs.map Stored.raw) = .ok (true, message) →
      Chained P h rs := by
  induction rs with
  | nil => exact fun _ _ => trivial
  | cons r rs ih =>
    intro h i message hh hverify
    rw [List.map_cons, verifyRecords_raw P lib hh] at hverify
    split at hverify
    · cases (Prod.mk.inj (Except.ok.inj hverify)).1
    · rename_i hne
      have hhash : r.2 = r.1.nextHash P h := by
        by_contra hother
        exact hne ⟨hhashed r List.mem_cons_self, hother⟩
      have hencode : Encodable r.2 := hhash ▸ encodable_nextHash P r.1 h
      exact ⟨hhash, ih (fun s hs => hhashed s (List.mem_cons_of_mem _ hs)) hencode hverify⟩

theorem encodable_nil : Encodable [] := fun _ hc => absurd hc List.not_mem_nil

/-- **The records that were appended behind each other verify.** -/
theorem verifyChain_holds (lib : CalibrationLib) {file : Option Bytes} {rs : List Stored}
    (hfile : Holds P file rs)
    (hchain : Chained P [] rs) : ∃ message, verifyChain lib P file = .ok (true, message) := by
  rw [verifyChain, rawRecords_holds hfile]
  simp only [bind, Except.bind, List.map_eq_nil_iff]
  by_cases hrs : rs = []
  · exact ⟨_, if_pos hrs⟩
  · exact ⟨_, (if_neg hrs).trans (verifyRecords_chain P lib encodable_nil hchain 0)⟩

/-- Of hashes that are there, only a chain verifies. -/
theorem chained_of_verifyChain (lib : CalibrationLib) {file : Option Bytes} {rs : List Stored}
    (hfile : rawRecords file = .ok (rs.map Stored.raw)) (hhashed : ∀ r ∈ rs, r.2 ≠ [])
    {message : Str}
    (h : verifyChain lib P file = .ok (true, message)) : Chained P [] rs := by
  rw [verifyChain, hfile] at h
  simp only [bind, Except.bind, List.map_eq_nil_iff] at h
  by_cases hrs : rs = []
  · rw [hrs]
    trivial
  · exact chained_of_verifies P lib hhashed encodable_nil ((if_neg hrs).symm.trans h)

end

/-! ## Reading back -/

theorem getItem_of_nodup {items : Items} (hnodup : (items.map Prod.fst).Nodup) {key : Str}
    {v : PyVal} (h : (.str key, v) ∈ items) : getItem items key = some v := by
  cases hget : getItem items key with
  | none =>
    have hnone := Option.map_eq_none_iff.mp hget
    simpa using List.find?_eq_none.mp hnone _ h
  | some w =>
    have hsame := (List.inj_on_of_nodup_map hnodup) (getItem_mem hget) h rfl
    rw [(Prod.mk.inj hsame).2]

/-- **An instance is constructed from its own fields.** -/
theorem construct_of_conforms {specs : List FieldSpec} {items fields : Items}
    (h : List.Forall₂ (fun f p => p.1 = .str f.name ∧ f.type.admits p.2 = true) specs items)
    (hfields : ∀ (name : Str) v, (.str name, v) ∈ items → getItem fields name = some v) :
    construct specs fields = some items := by
  unfold construct
  induction h with
  | nil => rfl
  | @cons f p specs items hab _ ih =>
    obtain ⟨key, v⟩ := p
    obtain ⟨rfl, -⟩ := hab
    simp only [List.mapM_cons, hfields _ _ List.mem_cons_self, Option.some_or, Option.map_some,
      Option.bind_eq_bind, Option.bind_some,
      ih fun name w hw => hfields name w (List.mem_cons_of_mem _ hw)]
    rfl

theorem Instance.construct {specs : List FieldSpec} (hspecs : (specs.map FieldSpec.name).Nodup)
    (x : Instance specs) : Calibration.construct specs x.items = some x.items := by
  have hparsed := x.parsed hspecs
  cases hparsed with
  | dict hdict _ =>
    exact construct_of_conforms x.conforms fun name v hv => getItem_of_nodup hdict.nodup hv

namespace Entry

def specs : Entry → List FieldSpec
  | .prediction _ => predictionFields
  | .outcome _ => outcomeFields

/-- The items that `_read_records` makes of a record. -/
def readItems (e : Entry) (h : Str) : Items :=
  e.items ++ [(.str (lit "type"), .str e.recordType), (.str (lit "_hash"), .str h)]

variable (e : Entry) (h : Str)

theorem keys : e.items.map Prod.fst = e.specs.map fun f => PyKey.str f.name := by
  cases e with
  | prediction x => exact x.keys
  | outcome x => exact x.keys

theorem type_not_mem : PyKey.str (lit "type") ∉ e.items.map Prod.fst := by
  rw [e.keys]
  cases e with
  | prediction x =>
    show PyKey.str (lit "type") ∉ predictionFields.map fun f => PyKey.str f.name
    decide
  | outcome x =>
    show PyKey.str (lit "type") ∉ outcomeFields.map fun f => PyKey.str f.name
    decide

theorem hash_not_mem : PyKey.str (lit "_hash") ∉ e.items.map Prod.fst := by
  rw [e.keys]
  cases e with
  | prediction x =>
    show PyKey.str (lit "_hash") ∉ predictionFields.map fun f => PyKey.str f.name
    decide
  | outcome x =>
    show PyKey.str (lit "_hash") ∉ outcomeFields.map fun f => PyKey.str f.name
    decide

theorem readRecord_dict : readRecord (.dict (e.dict h)) = .ok (e.readItems h) := by
  have hhash : PyKey.str (lit "_hash") ∉
      (e.items ++ [(PyKey.str (lit "type"), PyVal.str e.recordType)]).map Prod.fst := by
    rw [List.map_append, List.mem_append, not_or]
    exact ⟨e.hash_not_mem, by show PyKey.str (lit "_hash") ∉ [PyKey.str (lit "type")]; decide⟩
  show Except.ok
    (dictInsert (lit "_hash") (.str h) (dictInsert (lit "type") (.str e.recordType) e.items)) = _
  rw [dictInsert_of_not_mem e.type_not_mem, dictInsert_of_not_mem hhash, List.append_assoc]
  rfl

theorem hasType_readItems (text : String) :
    hasType text (e.readItems h) = decide (e.recordType = lit text) := by
  have htype : getItem (e.readItems h) (lit "type") = some (.str e.recordType) := by
    have hnone : (e.items.find? fun p => p.1 = .str (lit "type")) = none := by
      refine List.find?_eq_none.mpr fun p hp hkey => e.type_not_mem ?_
      rw [← of_decide_eq_true hkey]
      exact List.mem_map_of_mem hp
    rw [getItem, readItems, List.find?_append, hnone]
    rfl
  rw [hasType, htype]
  rfl

/-- Of the record, its own fields are known. -/
theorem knownFields_readItems : knownFields e.specs (e.readItems h) = e.items := by
  have hown : e.items.filter (fun p => p.1 ∈ e.specs.map fun f => PyKey.str f.name) = e.items := by
    refine List.filter_eq_self.mpr fun p hp => decide_eq_true ?_
    rw [← e.keys]
    exact List.mem_map_of_mem hp
  have hadded : ([(.str (lit "type"), .str e.recordType), (.str (lit "_hash"), .str h)] :
    Items).filter (fun p => p.1 ∈ e.specs.map fun f => PyKey.str f.name) = [] := by
    refine List.filter_eq_nil_iff.mpr fun p hp hmem => ?_
    have hmem := of_decide_eq_true hmem
    rw [← e.keys] at hmem
    simp only [List.mem_cons, List.not_mem_nil, or_false] at hp
    rcases hp with rfl | rfl
    · exact e.type_not_mem hmem
    · exact e.hash_not_mem hmem
  rw [knownFields, readItems, List.filter_append, hown, hadded, List.append_nil]

end Entry

/-- The recorded outcomes. -/
def outcomesOf (es : List Entry) : List Outcome := es.filterMap fun
  | .prediction _ => none
  | .outcome x => some x

/-- The recorded predictions. -/
def predictionsOf (es : List Entry) : List Prediction := es.filterMap fun
  | .prediction x => some x
  | .outcome _ => none

theorem readRecords_holds {P : Platform} {file : Option Bytes} {rs : List Stored}
    (hfile : Holds P file rs) : readRecords file = .ok (rs.map fun r => r.1.readItems r.2) := by
  have hall : ∀ rs : List Stored, (rs.map Stored.raw).mapM readRecord =
      .ok (rs.map fun r => r.1.readItems r.2) := by
    intro rs
    induction rs with
    | nil => rfl
    | cons r rs ih =>
      have hread : readRecord r.raw = .ok (r.1.readItems r.2) := r.1.readRecord_dict r.2
      simp only [List.map_cons, List.mapM_cons, hread, ih, bind, Except.bind, pure, Except.pure]
  rw [readRecords, rawRecords_holds hfile]
  exact hall rs

theorem outcomes_reads (rs : List Stored) :
    (((rs.map fun r => r.1.readItems r.2).filter (hasType "OUTCOME")).filterMap fun r =>
      construct outcomeFields (knownFields outcomeFields r)) = (outcomesOf (rs.map Prod.fst)).map
          Instance.items := by
  induction rs with
  | nil => rfl
  | cons r rs ih =>
    obtain ⟨e, g⟩ := r
    rw [List.map_cons]
    have htype := e.hasType_readItems g "OUTCOME"
    have hknown := e.knownFields_readItems g
    cases e with
    | prediction x =>
      have hother : hasType "OUTCOME" (Entry.readItems (.prediction x) g) = false := htype
      rw [List.filter_cons_of_neg (by rw [hother]; decide), ih]
      rfl
    | outcome x =>
      have hown : hasType "OUTCOME" (Entry.readItems (.outcome x) g) = true := htype
      have hread : construct outcomeFields
          (knownFields outcomeFields (Entry.readItems (.outcome x) g)) = some x.items := by
        rw [show knownFields outcomeFields (Entry.readItems (.outcome x) g) = x.items from hknown]
        exact x.construct (by decide)
      rw [List.filter_cons_of_pos hown, List.filterMap_cons, hread, ih]
      rfl

/-- **The outcomes are the recorded ones.** -/
theorem outcomes_holds {P : Platform} {file : Option Bytes} {rs : List Stored}
    (hfile : Holds P file rs) :
    outcomes file = .ok ((outcomesOf (rs.map Prod.fst)).map Instance.items) := by
  rw [outcomes, readRecords_holds hfile]
  exact congrArg Except.ok (outcomes_reads rs)

/-! ## Predictions -/

def textOf : PyVal → Str
  | .str s => s
  | _ => []

/-- A text field. -/
def Instance.text {specs : List FieldSpec} (x : Instance specs) (name : String) : Str :=
  textOf (attr x.items name)

theorem exists_field {specs : List FieldSpec} {items : Items}
    (h : List.Forall₂ (fun f p => p.1 = .str f.name ∧ f.type.admits p.2 = true) specs items)
    {f : FieldSpec} (hf : f ∈ specs) :
    ∃ v, (.str f.name, v) ∈ items ∧ f.type.admits v = true := by
  induction h with
  | nil => cases hf
  | @cons g p specs items hab _ ih =>
    rcases List.mem_cons.mp hf with rfl | hf
    · obtain ⟨key, v⟩ := p
      obtain ⟨rfl, hv⟩ := hab
      exact ⟨v, List.mem_cons_self, hv⟩
    · obtain ⟨v, hmem, hv⟩ := ih hf
      exact ⟨v, List.mem_cons_of_mem _ hmem, hv⟩

theorem Instance.attr_text {specs : List FieldSpec} (hspecs : (specs.map FieldSpec.name).Nodup)
    (x : Instance specs)
    {name : String} {default : Option PyVal} (hf : ⟨lit name, .str, default⟩ ∈ specs) :
    attr x.items name = .str (x.text name) := by
  obtain ⟨v, hmem, hv⟩ := exists_field x.conforms hf
  have hget : getItem x.items (lit name) = some v := by
    have hparsed := x.parsed hspecs
    cases hparsed with
    | dict hdict _ => exact getItem_of_nodup hdict.nodup hmem
  have hattr : attr x.items name = v := by rw [attr, hget, Option.getD_some]
  rw [text, hattr]
  cases v with
  | str s => rfl
  | _ => cases hv

section
variable (x : Prediction) (o : Outcome)

theorem Prediction.attr_id : attr x.items "prediction_id" = .str (x.text "prediction_id") :=
  x.attr_text (by decide)
    (show (⟨lit "prediction_id", .str, none⟩ : FieldSpec) ∈
      predictionFields by simp [predictionFields])

theorem Prediction.attr_domain : attr x.items "domain" = .str (x.text "domain") :=
  x.attr_text (by decide) (show (⟨lit "domain", .str, some (.str projectDuration)⟩ : FieldSpec) ∈
    predictionFields by simp [predictionFields])

theorem Outcome.attr_id : attr o.items "prediction_id" = .str (o.text "prediction_id") :=
  o.attr_text (by decide)
    (show (⟨lit "prediction_id", .str, none⟩ : FieldSpec) ∈ outcomeFields by simp [outcomeFields])

theorem Outcome.attr_domain : attr o.items "domain" = .str (o.text "domain") :=
  o.attr_text (by decide) (show (⟨lit "domain", .str, some (.str runDuration)⟩ : FieldSpec) ∈
    outcomeFields by simp [outcomeFields])

end

/-- A prediction as it is read, among these outcomes. -/
def derived (outs : List Outcome) (x : Prediction) : Items :=
  if outs.any (fun o => o.text "prediction_id" = x.text "prediction_id") then setMatched x.items
    else x.items

theorem getItem_dictInsert_ne {k key : Str} (hne : key ≠ k) (v : PyVal) (items : Items) :
    getItem (dictInsert k v items) key = getItem items key := by
  induction items with
  | nil =>
    have hk : k ≠ key := hne.symm
    simp [dictInsert, getItem, hk]
  | cons p items ih =>
    obtain ⟨key', w⟩ := p
    unfold getItem at ih ⊢
    rw [dictInsert]
    by_cases hk : key' = .str k
    · have hother : k ≠ key := hne.symm
      simp [hk, hother]
    · rw [if_neg hk, List.find?_cons, List.find?_cons]
      by_cases hkey : key' = .str key
      · simp [hkey]
      · simpa [hkey] using ih

theorem attr_derived (outs : List Outcome) (x : Prediction) {name : String}
    (hname : lit name ≠ lit "calibration_status") :
    attr (derived outs x) name = attr x.items name := by
  unfold derived attr
  split
  · rw [setMatched, getItem_dictInsert_ne hname]
  · rfl

theorem any_unhashable (outs : List Outcome) :
    (outs.map Instance.items).any (fun o => !isHashable (attr o "prediction_id")) = false := by
  simp [Outcome.attr_id, isHashable]

theorem any_eq_id (lib : CalibrationLib) (outs : List Outcome) (x : Prediction) :
    (outs.map Instance.items).any
    (fun o => lib.eq (attr o "prediction_id") (attr x.items "prediction_id")) =
      outs.any fun o => o.text "prediction_id" = x.text "prediction_id" := by
  rw [List.any_map]
  simp [Function.comp_def, Outcome.attr_id, Prediction.attr_id, lib.eq_str]

/-- What `predictions` makes of a record. -/
theorem predictions_reads (lib : CalibrationLib) (outs : List Outcome) (rs : List Stored) :
    (((rs.map fun r => r.1.readItems r.2).filter (hasType "PREDICTION")).filterMap fun r =>
      (construct predictionFields (knownFields predictionFields r)).bind fun pred =>
        if !isHashable (attr pred "prediction_id") then none
        else if (outs.map Instance.items).any
          (fun o => lib.eq (attr o "prediction_id") (attr pred "prediction_id")) then
          some (setMatched pred)
        else some pred) = (predictionsOf (rs.map Prod.fst)).map (derived outs) := by
  induction rs with
  | nil => rfl
  | cons r rs ih =>
    obtain ⟨e, g⟩ := r
    rw [List.map_cons]
    have htype := e.hasType_readItems g "PREDICTION"
    have hknown := e.knownFields_readItems g
    cases e with
    | outcome x =>
      have hother : hasType "PREDICTION" (Entry.readItems (.outcome x) g) = false := htype
      rw [List.filter_cons_of_neg (by rw [hother]; decide), ih]
      rfl
    | prediction x =>
      have hown : hasType "PREDICTION" (Entry.readItems (.prediction x) g) = true := htype
      have hread : construct predictionFields
          (knownFields predictionFields (Entry.readItems (.prediction x) g)) = some x.items := by
        rw [show knownFields predictionFields (Entry.readItems (.prediction x) g) = x.items
          from hknown]
        exact x.construct (by decide)
      have hhash : (!isHashable (attr x.items "prediction_id")) = false := by rw [x.attr_id]; rfl
      rw [List.filter_cons_of_pos hown, List.filterMap_cons, hread, ih]
      simp only [Option.bind_some, hhash, any_eq_id]
      show _ = derived outs x :: (predictionsOf (rs.map Prod.fst)).map (derived outs)
      unfold derived
      cases outs.any (fun o => decide (o.text "prediction_id" = x.text "prediction_id")) <;> rfl

/-- **The predictions are the recorded ones.** -/
theorem predictions_holds (lib : CalibrationLib) {P : Platform} {file : Option Bytes}
    {rs : List Stored} (hfile : Holds P file rs) : predictions lib file =
      .ok ((predictionsOf (rs.map Prod.fst)).map (derived (outcomesOf (rs.map Prod.fst)))) := by
  rw [predictions, outcomes_holds hfile]
  simp only [bind, Except.bind, any_unhashable, readRecords_holds hfile]
  exact congrArg Except.ok (predictions_reads lib (outcomesOf (rs.map Prod.fst)) rs)

/-! ## Pairs -/

/-- An outcome of a prediction, in the same domain, which is not empty. -/
def Partner (p : Prediction) (o : Outcome) : Prop :=
  p.text "prediction_id" = o.text "prediction_id" ∧ p.text "domain" = o.text "domain" ∧
    p.text "domain" ≠ []

instance instDecidablePartner (p : Prediction) (o : Outcome) : Decidable (Partner p o) :=
  inferInstanceAs (Decidable (_ ∧ _ ∧ _))

/-- Predictions with one id are of one domain. -/
def Agree (preds : List Prediction) : Prop :=
  ∀ p ∈ preds, ∀ q ∈ preds, p.text "prediction_id" = q.text "prediction_id" →
    p.text "domain" = q.text "domain"

theorem computePair_outcome (lib : CalibrationLib) {pred out : Items} {pair : CalibrationPair}
    (h : computePair lib pred out = .ok pair) : pair.outcome = out := by
  simp only [computePair, bind_eq_ok] at h
  obtain ⟨_, -, _, -, _, -, _, -, _, -, _, -, _, -, h⟩ := h
  split at h
  all_goals
    obtain ⟨_, -, hpair⟩ := bind_eq_ok.mp h
    rw [← Except.ok.inj hpair]

section
variable (lib : CalibrationLib) (all : List Outcome) (preds : List Prediction)

theorem lastWith_derived (o : Outcome) : lastWith lib (preds.map (derived all))
    (attr o.items "prediction_id") =
    (preds.reverse.find? fun p => p.text "prediction_id" = o.text "prediction_id").map
    (derived all) := by
  have hid : ∀ p : Prediction, attr (derived all p) "prediction_id" =
      .str (p.text "prediction_id") := fun p => by
    rw [attr_derived all p (by decide), p.attr_id]
  rw [lastWith, ← List.map_reverse, List.find?_map]
  simp [hid, o.attr_id, lib.eq_str]

theorem sameDomain_derived (p : Prediction) (o : Outcome) : sameDomain lib (derived all p) o.items =
    decide (p.text "domain" ≠ [] ∧ p.text "domain" = o.text "domain") := by
  rw [sameDomain, attr_derived all p (by decide), p.attr_domain, o.attr_domain, lib.eq_str]
  simp [truthy]

/-- **Every outcome with a partner is in one pair**, as long as the errors of the pairs can be
computed. -/
theorem pairLoop_outcomes (hagree : Agree preds) (outs : List Outcome)
    (hcompute : ∀ p ∈ preds, ∀ o ∈ outs, Partner p o → ∃ pair,
      computePair lib (derived all p) o.items = .ok pair) :
    ∃ ps, pairLoop lib (preds.map (derived all)) none (outs.map Instance.items) = .ok ps ∧
      ps.map CalibrationPair.outcome = (outs.filter fun o => ∃ p ∈ preds, Partner p o).map
      Instance.items := by
  induction outs with
  | nil => exact ⟨[], rfl, rfl⟩
  | cons o outs ih =>
    obtain ⟨ps, hps, hout⟩ := ih fun p hp o ho => hcompute p hp o (List.mem_cons_of_mem _ ho)
    rw [List.map_cons, pairLoop, lastWith_derived]
    cases hfind : preds.reverse.find? fun p => p.text "prediction_id" = o.text "prediction_id" with
    | none =>
      have hnone : ¬∃ p ∈ preds, Partner p o := by
        rintro ⟨p, hp, hid, -⟩
        simpa [hid] using List.find?_eq_none.mp hfind p (List.mem_reverse.mpr hp)
      rw [List.filter_cons_of_neg (by simpa using hnone)]
      exact ⟨ps, hps, hout⟩
    | some p =>
      have hp : p ∈ preds := List.mem_reverse.mp (List.mem_of_find?_eq_some hfind)
      have hid : p.text "prediction_id" = o.text "prediction_id" := by
        simpa using List.find?_some hfind
      -- the last prediction with the id speaks for the others
      have hpartner : (∃ q ∈ preds, Partner q o) ↔ Partner p o := by
        refine ⟨fun ⟨q, hq, hqid, hdomain, hne⟩ => ?_, fun h => ⟨p, hp, h⟩⟩
        have hsame := hagree p hp q hq (hid.trans hqid.symm)
        exact ⟨hid, hsame.trans hdomain, hsame ▸ hne⟩
      simp only [Option.map_some, sameDomain_derived, Option.any_none, Bool.false_eq_true, if_false]
      by_cases hown : Partner p o
      · obtain ⟨pair, hpair⟩ := hcompute p hp o List.mem_cons_self hown
        have hdomain : (!decide (p.text "domain" ≠ [] ∧ p.text "domain" = o.text "domain")) =
            false := by
          simp [hown.2.1.symm, hown.2.2]
        rw [List.filter_cons_of_pos (by simpa using hpartner.mpr hown), hdomain]
        refine ⟨pair :: ps, by simp [hpair, hps, bind, Except.bind], ?_⟩
        rw [List.map_cons, List.map_cons, hout, computePair_outcome lib hpair]
      · have hdomain : (!decide (p.text "domain" ≠ [] ∧ p.text "domain" = o.text "domain")) =
            true := by
          simp only [Bool.not_eq_true', decide_eq_false_iff_not]
          exact fun h => hown ⟨hid, h.2, h.1⟩
        rw [List.filter_cons_of_neg (by simpa using fun h => hown (hpartner.mp h)), hdomain]
        exact ⟨ps, hps, hout⟩

end

/-- What `pairs` returns. -/
def PairsOf (lib : CalibrationLib) (file : Option Bytes) (es : List Entry) : Prop :=
  (∀ p ∈ predictionsOf es, ∀ o ∈ outcomesOf es, Partner p o →
      ∃ pair, computePair lib (derived (outcomesOf es) p) o.items = .ok pair) →
    ∃ ps, pairs lib file none = .ok ps ∧ ps.map CalibrationPair.outcome =
      ((outcomesOf es).filter fun o => ∃ p ∈ predictionsOf es, Partner p o).map Instance.items

theorem pairs_holds (lib : CalibrationLib) {P : Platform} {file : Option Bytes} {rs : List Stored}
    (hfile : Holds P file rs)
    (hagree : Agree (predictionsOf (rs.map Prod.fst))) : PairsOf lib file (rs.map Prod.fst) := by
  intro hcompute
  obtain ⟨ps, hps, hout⟩ := pairLoop_outcomes lib _ _ hagree _ hcompute
  refine ⟨ps, ?_, hout⟩
  rw [pairs, predictions_holds lib hfile, outcomes_holds hfile]
  simp only [bind, Except.bind, any_unhashable]
  exact hps

/-! ## Stores -/

/-- The file, the hash that each store remembers, and what was recorded. -/
structure Stores where
  file : Option Bytes
  prev : Nat → Option PyVal
  recorded : List Entry

def Stores.init : Stores := ⟨none, fun _ => none, []⟩

inductive Event where
  | create (i : Nat)
  | record (i : Nat) (e : Entry)

section
variable (lib : CalibrationLib) (P : Platform)

/-- A store is opened, or records. A call that raises appends nothing. -/
def step (s : Stores) : Event → Option Stores
  | .create i =>
    match readChain s.file with
    | .ok prev => some { s with prev := Function.update s.prev i (some prev) }
    | .error _ => some s
  | .record i e =>
    match s.prev i with
    | none => none
    | some prev =>
      match e.record P prev s.file with
      | .ok (file, h) => some ⟨some file, Function.update s.prev i (some h), s.recorded ++ [e]⟩
      | .error _ => some s

/-- A record is written in turn if its store remembers the hash of the last record. -/
def InTurn (s : Stores) : Event → Prop
  | .create _ => True
  | .record i _ => ∀ prev, s.prev i = some prev → readChain s.file = .ok prev

def Event.Clean : Event → Prop
  | .create _ => True
  | .record _ e => e.Clean P

/-- What holds between the calls. -/
structure Inv (s : Stores) (rs : List Stored) : Prop where
  holds : Holds P s.file rs
  recorded : s.recorded = rs.map Prod.fst
  prev : ∀ i prev, s.prev i = some prev → ∃ h, prev = .str h ∧ Encodable h

variable {P}

theorem inv_init : Inv P .init [] := ⟨⟨rfl, fun _ => rfl, nofun⟩, rfl, nofun⟩

theorem encodable_lastHash {rs : List Stored} (h : ∀ r ∈ rs, Encodable r.2) :
    Encodable (lastHash [] rs) := by
  cases rs using List.reverseRecOn with
  | nil => exact encodable_nil
  | append_singleton rs r =>
    rw [lastHash_concat]
    exact h r (by simp)

theorem update_prev {prev : Nat → Option PyVal} (h : ∀ i p, prev i = some p → ∃ g, p = .str g ∧
    Encodable g) {g : Str}
    (hg : Encodable g) (j : Nat) :
    ∀ i p, Function.update prev j (some (.str g)) i = some p → ∃ g, p = .str g ∧ Encodable g := by
  intro i p hp
  by_cases hi : i = j
  · rw [hi, Function.update_self] at hp
    exact ⟨g, (Option.some.inj hp).symm, hg⟩
  · rw [Function.update_of_ne hi] at hp
    exact h i p hp

/-- Whoever records, the file holds one record more; in turn, the chain goes on. -/
theorem inv_step {s t : Stores} {rs : List Stored} {ev : Event} (h : Inv P s rs)
    (hclean : ev.Clean P) (hstep : step P s ev = some t) :
    ∃ rs', Inv P t rs' ∧ (Chained P [] rs → InTurn s ev → Chained P [] rs') := by
  cases ev with
  | create i =>
    simp only [step, readChain_holds P h.holds] at hstep
    obtain rfl := Option.some.inj hstep
    have hlast := encodable_lastHash fun r hr => (h.holds.clean r hr).2
    exact ⟨rs, ⟨h.holds, h.recorded, update_prev h.prev hlast i⟩, fun hchain _ => hchain⟩
  | record i e =>
    simp only [step] at hstep
    cases hi : s.prev i with
    | none => rw [hi] at hstep; cases hstep
    | some prev =>
      obtain ⟨g, rfl, hg⟩ := h.prev i prev hi
      obtain ⟨data, hrecord, hholds⟩ := holds_record h.holds hg hclean
      simp only [hi, hrecord] at hstep
      obtain rfl := Option.some.inj hstep
      refine ⟨_, ⟨hholds, by simp [h.recorded], update_prev h.prev (encodable_nextHash P e g) i⟩,
        fun hchain hturn => ?_⟩
      -- in turn, the store remembers the hash of the last record
      have hlast : PyVal.str g = .str (lastHash [] rs) :=
        Except.ok.inj ((hturn _ hi).symm.trans (readChain_holds P h.holds))
      refine (chained_append P _).mpr ⟨hchain, ?_⟩
      rw [PyVal.str.inj hlast]

theorem run_inv {evs : List Event} {s : Stores} (h : run (step P) .init evs = some s)
    (hclean : Along (step P) (fun _ ev => ev.Clean P) .init evs) : ∃ rs, Inv P s rs :=
  run_invariant_along (I := fun s => ∃ rs, Inv P s rs)
    (fun _ _ _ _ ⟨_, hrs⟩ hev hstep => (inv_step hrs hev hstep).imp fun _ h => h.1)
    ⟨[], inv_init⟩ hclean h

theorem run_chained {evs : List Event} {s : Stores} (h : run (step P) .init evs = some s)
    (hclean : Along (step P) (fun _ ev => ev.Clean P) .init evs)
    (hturn : Along (step P) InTurn .init evs) :
    ∃ rs, Inv P s rs ∧ Chained P [] rs := by
  refine run_invariant_along (I := fun s => ∃ rs, Inv P s rs ∧ Chained P [] rs)
    (fun ev _ s t hs hev hstep => ?_) ⟨[], inv_init, trivial⟩ (along_and.mpr ⟨hclean, hturn⟩) h
  obtain ⟨rs, hrs, hchain⟩ := hs
  obtain ⟨rs', hrs', hnext⟩ := inv_step hrs hev.1 hstep
  exact ⟨rs', hrs', hnext hchain hev.2⟩

/-- **A store that is alone on its file is always in turn.** -/
theorem inTurn_alone (i : Nat) {es : List Entry} (hclean : ∀ e ∈ es, e.Clean P) : ∃ s,
    run (step P) .init (.create i :: es.map (.record i)) = some s ∧ s.recorded = es ∧
    readChain s.file = .ok ((s.prev i).getD .none) ∧
      (∃ rs, Inv P s rs) ∧ s.prev i ≠ none ∧
      Along (step P) InTurn .init (.create i :: es.map (.record i)) := by
  induction es using List.reverseRecOn with
  | nil =>
    have hchain : readChain (none : Option Bytes) = .ok (.str []) := rfl
    refine ⟨⟨none, Function.update (fun _ => none) i (some (.str [])), []⟩, ?_, rfl, ?_, ⟨[], ?_⟩,
      ?_, trivial, fun _ _ => trivial⟩
    · simp [run, step, Stores.init, hchain]
    · simp [hchain]
    · exact ⟨⟨rfl, fun _ => rfl, fun _ h => absurd h List.not_mem_nil⟩, rfl,
        update_prev (fun _ _ hp => by cases hp) encodable_nil i⟩
    · simp
  | append_singleton es e ih =>
    obtain ⟨s, hrun, hrecorded, hlast, ⟨rs, hrs⟩, hsome, hturn⟩ :=
      ih fun f hf => hclean f (List.mem_append_left _ hf)
    obtain ⟨prev, hprev⟩ := Option.ne_none_iff_exists'.mp hsome
    obtain ⟨g, rfl, hg⟩ := hrs.prev i prev hprev
    obtain ⟨data, hrecord, hholds⟩ := holds_record hrs.holds hg (hclean e (by simp))
    have hstep : step P s (.record i e) =
        some ⟨some data, Function.update s.prev i (some (.str (e.nextHash P g))),
          s.recorded ++ [e]⟩ := by
      simp only [step, hprev, hrecord]
    have hmap : Event.create i :: (es ++ [e]).map (.record i) = (.create i :: es.map (.record i)) ++
      [.record i e] := by simp
    rw [hmap]
    refine ⟨_, run_concat_eq_some.mpr ⟨s, hrun, hstep⟩, by rw [hrecorded], ?_,
      ⟨_, hholds, by simp [hrs.recorded], ?_⟩, by simp, along_concat.mpr ⟨hturn, fun t ht => ?_⟩⟩
    · rw [readChain_holds P hholds, lastHash_concat]
      simp
    · exact update_prev hrs.prev (encodable_nextHash P e g) i
    · obtain rfl := Option.some.inj (hrun.symm.trans ht)
      intro prev hprev'
      rw [hlast, hprev']
      rfl

end

/-! ## Two files with one last hash -/

/-- The texts that were hashed. -/
def preimages (P : Platform) (h : Str) : List Stored → List Str
  | [] => []
  | r :: rs => (h ++ r.1.fieldsText P) :: preimages P r.2 rs

/-- The truncated hash. -/
def shortHash (P : Platform) (text : Str) : Str := (P.hexdigest ((encode text).getD [])).take 40

/-- The same record, up to the order of dicts. -/
def SameRecord (r s : Stored) : Prop :=
  r.1.recordType = s.1.recordType ∧ Same (.dict r.1.items) (.dict s.1.items) ∧ r.2 = s.2

section
variable (P : Platform)

theorem preimages_append (r : Stored) : ∀ (h : Str) (rs : List Stored),
    preimages P h (rs ++ [r]) = preimages P h rs ++ [lastHash h rs ++ r.1.fieldsText P]
  | h, [] => rfl
  | h, s :: rs => by
    rw [List.cons_append, preimages, preimages, preimages_append r, lastHash_cons, List.cons_append]

/-! ### Where the fields begin -/

theorem not_brace_of_hex (b : Bytes) : (123 : CodePoint) ∉ hex b := by
  have hdigit : ∀ d, d < 16 → hexChar d ≠ 123 := by
    intro d hd
    interval_cases d <;> decide
  intro hc
  obtain ⟨x, -, hx⟩ := List.mem_flatMap.mp hc
  have hlt : x.toNat < 256 := x.toNat_lt
  simp only [List.mem_cons, List.not_mem_nil, or_false] at hx
  rcases hx with hx | hx
  · exact hdigit _ (by omega) hx.symm
  · exact hdigit _ (by omega) hx.symm

theorem not_brace_of_chained {rs : List Stored} (h : Chained P [] rs) :
    (123 : CodePoint) ∉ lastHash [] rs := by
  cases rs using List.reverseRecOn with
  | nil => exact List.not_mem_nil
  | append_singleton rs r =>
    rw [lastHash_concat, ((chained_append P r).mp h).2]
    exact fun hc => not_brace_of_hex _ (List.mem_of_mem_take hc)

theorem fieldsText_brace (e : Entry) : ∃ s, e.fieldsText P = 123 :: s := by
  obtain ⟨kvs, hkvs⟩ : ∃ kvs, toJson P.keySort true (.dict e.items) = .obj kvs := ⟨_, rfl⟩
  obtain ⟨s, hs⟩ := render_obj_ends lineStyle kvs
  exact ⟨s ++ [125], by rw [Entry.fieldsText, hkvs, hs, List.cons_append]⟩

/-- A hashed text gives the hash before and the fields back. -/
theorem preimage_inj {g h : Str} (hg : (123 : CodePoint) ∉ g) (hh : (123 : CodePoint) ∉ h)
    {e f : Entry}
    (heq : g ++ e.fieldsText P = h ++ f.fieldsText P) :
    g = h ∧ e.fieldsText P = f.fieldsText P := by
  obtain ⟨s, hs⟩ := fieldsText_brace P e
  obtain ⟨t, ht⟩ := fieldsText_brace P f
  rw [hs, ht] at heq ⊢
  obtain ⟨hgh, hst⟩ := split_at hg hh heq
  exact ⟨hgh, by rw [hst]⟩

/-- **The fields are in their text.** -/
theorem same_of_fieldsText {e f : Entry} (he : e.Clean P) (hf : f.Clean P)
    (h : e.fieldsText P = f.fieldsText P) : Same (.dict e.items) (.dict f.items) := by
  have hread : ∀ g : Entry, g.Clean P →
      parse (g.fieldsText P) = some (toJson P.keySort true (.dict g.items)) := by
    intro g hg
    have hparse :=
      parse_render_append lineStyle (fun _ => hg) (fun c hc => absurd hc List.not_mem_nil)
    rwa [List.append_nil] at hparse
  have hjson := (hread e he).symm.trans ((congrArg parse h).trans (hread f hf))
  exact same_of_toJson_eq P.keySort _ _ e.parsed f.parsed (Option.some.inj hjson)

/-- The type lies outside the hashed text, but the names of the fields tell it. -/
theorem recordType_of_same {e f : Entry} (h : Same (.dict e.items) (.dict f.items)) :
    e.recordType = f.recordType := by
  have hname : ∀ name : Str, PyKey.str name ∈ e.items.map Prod.fst →
      PyKey.str name ∈ f.items.map Prod.fst := by
    intro name hmem
    obtain ⟨p, hp, hkey⟩ := List.mem_map.mp hmem
    obtain ⟨w, hw, -⟩ := same_of_mem h (k := p.1) (v := p.2) hp
    exact List.mem_map.mpr ⟨_, hw, hkey⟩
  rw [e.keys, f.keys] at hname
  cases e with
  | prediction x =>
    cases f with
    | prediction y => rfl
    | outcome y =>
      refine absurd
        (hname (lit "seed") (List.mem_map.mpr ⟨⟨lit "seed", .int, some (.int 0)⟩, ?_, rfl⟩)) ?_
      · show _ ∈ predictionFields
        simp [predictionFields]
      · show _ ∉ outcomeFields.map fun f => PyKey.str f.name
        decide
  | outcome x =>
    cases f with
    | outcome y => rfl
    | prediction y =>
      refine absurd
        (hname (lit "severity")
          (List.mem_map.mpr ⟨⟨lit "severity", .str, some (.str [])⟩, ?_, rfl⟩)) ?_
      · show _ ∈ outcomeFields
        simp [outcomeFields]
      · show _ ∉ predictionFields.map fun f => PyKey.str f.name
        decide

end

/-- **Two chains with one last hash are one**: from the last record back, each hash gives the fields
and the hash before. -/
theorem same_of_lastHash {P : Platform} {rs ss : List Stored} (hrs : Chained P [] rs)
    (hss : Chained P [] ss)
    (hhashed : ∀ r ∈ rs ++ ss, r.2 ≠ []) (hclean : ∀ r ∈ rs ++ ss, r.1.Clean P)
    (hinj : ∀ a ∈ preimages P [] rs, ∀ b ∈ preimages P [] ss, shortHash P a = shortHash P b → a = b)
    (hlast : lastHash [] rs = lastHash [] ss) : List.Forall₂ SameRecord rs ss := by
  induction rs using List.reverseRecOn generalizing ss with
  | nil =>
    cases ss using List.reverseRecOn with
    | nil => exact .nil
    | append_singleton ss s =>
      rw [lastHash_concat] at hlast
      exact absurd hlast.symm (hhashed s (by simp))
  | append_singleton rs r ih =>
    cases ss using List.reverseRecOn with
    | nil =>
      rw [lastHash_concat] at hlast
      exact absurd hlast (hhashed r (by simp))
    | append_singleton ss s =>
      obtain ⟨hrs, hr⟩ := (chained_append P r).mp hrs
      obtain ⟨hss, hs⟩ := (chained_append P s).mp hss
      rw [lastHash_concat, lastHash_concat] at hlast
      simp only [preimages_append, List.mem_append, List.mem_singleton] at hinj hhashed hclean
      have hpre := hinj _ (.inr rfl) _ (.inr rfl) (hr.symm.trans (hlast.trans hs))
      obtain ⟨hbefore, hfields⟩ :=
        preimage_inj P (not_brace_of_chained P hrs) (not_brace_of_chained P hss) hpre
      have hsame := same_of_fieldsText P (hclean r (by simp)) (hclean s (by simp)) hfields
      refine List.rel_append (ih hrs hss ?_ ?_ ?_ hbefore)
        (.cons ⟨recordType_of_same hsame, hsame, hlast⟩ .nil)
      · exact fun t ht => hhashed t (by rw [List.mem_append] at ht; tauto)
      · exact fun t ht => hclean t (by rw [List.mem_append] at ht; tauto)
      · exact fun a ha b hb => hinj a (.inl ha) b (.inl hb)

/-! ## The law of the file -/

/-- **The calibration file.** Whoever records, what was recorded is read back; the chain verifies if
every record is written in turn; and two verified files of hashed records with one last hash hold
the same records. -/
theorem calibration_chain (lib : CalibrationLib) (P : Platform) :
    (∀ evs s, run (step P) .init evs = some s → Along (step P) (fun _ ev => ev.Clean P) .init evs →
      predictions lib s.file =
      .ok ((predictionsOf s.recorded).map (derived (outcomesOf s.recorded))) ∧
        outcomes s.file = .ok ((outcomesOf s.recorded).map Instance.items) ∧
        (Agree (predictionsOf s.recorded) → PairsOf lib s.file s.recorded) ∧
        (Along (step P) InTurn .init evs → ∃ message, verifyChain lib P s.file =
          .ok (true, message))) ∧
    (∀ (f g : Option Bytes) (rs ss : List Stored),
      rawRecords f = .ok (rs.map Stored.raw) → rawRecords g = .ok (ss.map Stored.raw) →
      (∀ r ∈ rs ++ ss, r.1.Clean P ∧ r.2 ≠ []) →
      (∀ a ∈ preimages P [] rs, ∀ b ∈ preimages P [] ss, shortHash P a = shortHash P b → a = b) →
      (∃ message, verifyChain lib P f = .ok (true, message)) →
        (∃ message, verifyChain lib P g = .ok (true, message)) →
      lastHash [] rs = lastHash [] ss → List.Forall₂ SameRecord rs ss) := by
  constructor
  · intro evs s hrun hclean
    obtain ⟨rs, hrs⟩ := run_inv hrun hclean
    rw [hrs.recorded]
    refine ⟨predictions_holds lib hrs.holds, outcomes_holds hrs.holds, pairs_holds lib hrs.holds,
      fun hturn => ?_⟩
    obtain ⟨rs, hrs, hchain⟩ := run_chained hrun hclean hturn
    exact verifyChain_holds P lib hrs.holds hchain
  · intro f g rs ss hf hg hstored hinj ⟨_, haccepted⟩ ⟨_, haccepted'⟩ hlast
    have hhashed : ∀ r ∈ rs ++ ss, r.2 ≠ [] := fun r hr => (hstored r hr).2
    have hrs :=
      chained_of_verifyChain P lib hf (fun r hr => hhashed r (List.mem_append_left _ hr)) haccepted
    have hss := chained_of_verifyChain P lib hg (fun r hr => hhashed r (List.mem_append_right _ hr))
      haccepted'
    exact same_of_lastHash hrs hss hhashed (fun r hr => (hstored r hr).1) hinj hlast

/-! ### Two stores at once -/

/-- What the two hashes of two stores that were opened together are worth. -/
theorem twoStores_mismatch (lib : CalibrationLib) {P : Platform} {e f : Entry} (he : e.Clean P)
    (hf : f.Clean P)
    (hsome : f.nextHash P [] ≠ []) (hother : f.nextHash P [] ≠ f.nextHash P (e.nextHash P [])) :
    ∃ s message, run (step P) .init [.create 0, .create 1, .record 0 e, .record 1 f] = some s ∧
      verifyChain lib P s.file = .ok (false, message) := by
  have hchain : readChain (none : Option Bytes) = .ok (.str []) := rfl
  obtain ⟨data, hrecord, hholds⟩ := holds_record inv_init.holds encodable_nil he
  obtain ⟨data', hrecord', hholds'⟩ := holds_record hholds encodable_nil hf
  have hrecord : e.record P (.str []) none = .ok (data, .str (e.nextHash P [])) := hrecord
  refine ⟨⟨some data',
    Function.update
    (Function.update (Function.update (Function.update (fun _ => none) 0 (some (.str [])))
      1 (some (.str []))) 0 (some (.str (e.nextHash P [])))) 1 (some (.str (f.nextHash P []))),
      [e, f]⟩,
    lit "hash mismatch at record " ++ (intLit (1 : Nat)).text ++ lit ": expected " ++
      (f.nextHash P (e.nextHash P [])).take 12 ++ lit ", got " ++ (f.nextHash P []).take 12, ?_, ?_⟩
  · simp [run, step, Stores.init, hchain, hrecord, hrecord', Function.update]
  · rw [verifyChain, rawRecords_holds hholds']
    have hfirst :=
      verifyRecords_raw P lib encodable_nil (e, e.nextHash P []) 0 [Stored.raw (f, f.nextHash P [])]
    have hsecond := verifyRecords_raw P lib (encodable_nextHash P e []) (f, f.nextHash P []) 1 []
    rw [if_neg fun h => h.2 rfl] at hfirst
    rw [if_pos ⟨hsome, hother⟩] at hsecond
    exact hfirst.trans hsecond

/-- A library of texts. -/
def CalibrationLib.texts : CalibrationLib where
  eq
    | .str s, .str t => decide (s = t)
    | _, _ => false
  eq_str _ _ := rfl
  add _ _ := .error .typeError
  sub _ _ := .error .typeError
  div _ _ := .error .typeError
  abs _ := .error .typeError
  square _ := .error .typeError
  positive _ := .error .typeError
  head12 _ := .error .typeError

/-- The items of an instance, from the values of its first fields. -/
def defaults (specs : List FieldSpec) (given : List PyVal) : Items :=
  (specs.zip (given ++ (specs.drop given.length).map fun f => f.default.getD .none)).map fun p =>
    (.str p.1.name, p.2)

/-- An outcome after the days given. -/
def outcomeAfter (days : Int) : Outcome where
  items := defaults outcomeFields
    [.str (lit "o1"), .str (lit "p1"), .str (lit "msb"), .str (lit "now"), .int days]
  conforms := by
    simp [defaults, outcomeFields, FieldType.admits, isStr, isFloat, isInt, isBool, isDictOf]

theorem clean_outcomeAfter (P : Platform) (days : Int) :
    (Entry.outcome (outcomeAfter days)).Clean P := by
  have hnil : Unpaired [] := List.isChain_nil
  refine unpaired_dict fun p hp => ?_
  simp only [Entry.items, outcomeAfter, defaults, outcomeFields, List.length_cons, List.length_nil,
    List.drop_succ_cons, List.drop_zero,
    List.map_cons, List.map_nil, Option.getD_some, List.cons_append, List.nil_append,
    List.zip_cons_cons, List.zip_nil_right,
    List.mem_cons, List.not_mem_nil, or_false] at hp
  rcases hp with rfl | rfl | rfl | rfl | rfl | rfl | rfl | rfl | rfl | rfl | rfl | rfl | rfl
  all_goals refine ⟨unpaired_of_ascii (ascii_lit rfl), ?_⟩
  · exact unpaired_of_ascii (ascii_lit rfl)
  · exact unpaired_of_ascii (ascii_lit rfl)
  · exact unpaired_of_ascii (ascii_lit rfl)
  · exact unpaired_of_ascii (ascii_lit rfl)
  · trivial
  · exact unpaired_of_ascii (ascii_lit rfl)
  · trivial
  · trivial
  · exact hnil
  · exact unpaired_dict fun _ hp => absurd hp List.not_mem_nil
  · exact hnil
  · trivial
  · exact hnil

theorem inTurn_alone_one : ∃ s, run (step Platform.tagged) .init
      [.create 0, .record 0 (.outcome (outcomeAfter 3)), .record 0 (.outcome (outcomeAfter 4))] =
      some s ∧
    s.recorded = [.outcome (outcomeAfter 3), .outcome (outcomeAfter 4)] := by
  have hclean : ∀ e ∈ [Entry.outcome (outcomeAfter 3), .outcome (outcomeAfter 4)],
      e.Clean Platform.tagged := by
    intro e he
    rcases List.mem_pair.mp he with rfl | rfl
    · exact clean_outcomeAfter _ 3
    · exact clean_outcomeAfter _ 4
  exact (inTurn_alone 0 hclean).imp fun _ hs => ⟨hs.1, hs.2.1⟩

/-- Two stores that are opened on a missing file and then record: the second does not know of the
record of the first. -/
theorem two_stores_mismatch : ¬∀ (lib : CalibrationLib) (P : Platform) (evs : List Event)
    (s : Stores),
    run (step P) .init evs = some s → ∃ message, verifyChain lib P s.file =
    .ok (true, message) := by
  intro h
  obtain ⟨s, message, hrun, hverify⟩ :=
    twoStores_mismatch .texts (P := .tagged) (clean_outcomeAfter _ 3) (clean_outcomeAfter _ 3)
    (by decide +kernel) (by decide +kernel)
  obtain ⟨message', hok⟩ := h .texts .tagged _ s hrun
  rw [hverify] at hok
  cases (Prod.mk.inj (Except.ok.inj hok)).1

end Plei.Calibration
