import Msb.Conversation.Replayed
import Msb.Infra.JsonTexts
import Msb.Infra.JsonUnsorted
import Msb.Ledger.Notary

/-!
# The stream of the records

`append_record` and `ingest_stream`: a record is a line of JSON, and the lines are read with
`splitlines`. The JSON is written without escapes, so a text may hold characters at which
`splitlines` breaks the line.

A stream with a line that is no JSON is refused as a whole. A record that is refused by `produce`
ends the loop; what came before it stays.

* `streamReads_iff` — when the records are read back
* `produceAll_eq_self_iff` — when an error has left the ledger as it was
* `produceAll_again` — what a second run does
-/

namespace Conversation

open Py Ledger

/-! ## Writing -/

section

variable (P : Platform) (lib : Texts)

/-- The line of a record. -/
def recordLine (record : PyVal) : Except PyError Str := do
  Exchange.validateRecord lib record
  let text ← dumps P.keySort true plainStyle record
  .ok (text ++ [10])

/-- `append_record`, with the content of the stream before and after. -/
def appendRecord (stream : Option Bytes) (record : PyVal) : Except PyError (Option Bytes) := do
  let line ← recordLine P lib record
  let line ← encodeE line
  .ok (some (stream.getD [] ++ line))

end

/-! ## Reading -/

/-- The lines that are not blank, stripped and with their numbers. -/
def streamLines (text : Str) : List (Str × ℕ) :=
  (((splitlines text).map strip).zipIdx 1).filter fun l => l.1 ≠ []

/-- `records` -/
def streamRecords (text : Str) : List PyVal :=
  (streamLines text).filterMap fun l => (loads l.1).toOption

inductive StreamStatus where
  | noRecords
  | error
  | noNewEvents
  | ok
  deriving DecidableEq

/-- What `ingest_stream` returns. -/
structure StreamReport where
  status : StreamStatus
  records : ℕ
  ingested : ℕ
  skipped : ℕ
  errors : List Str
  claims : ℕ
  verdicts : List (Str × Option Verdict)

/-- The classes that the loop catches: `ValueError` and `OSError`. -/
def isRejection : PyError → Bool
  | .valueError _ | .jsonDecodeError | .unicodeEncodeError | .osError _ | .permissionError _ => true
  | _ => false

/-- The variables of the loop. -/
structure Progress where
  ingested : ℕ
  skipped : ℕ
  claimIds : List (Str × Option Verdict)

/-- `claim_ids[result["claim_id"]] = result["verdict"]`, and the count. -/
def Progress.add (progress : Progress) (result : Produced) : Progress where
  ingested := if result.ingested then progress.ingested + 1 else progress.ingested
  skipped := if result.ingested then progress.skipped else progress.skipped + 1
  claimIds := Keyed.put Prod.fst (result.claimId, result.verdict) progress.claimIds

section

variable (P : Platform) (lib : Texts) (exc : PyError → Str) (gitHead : Str)

/-- `errors` -/
def streamErrors (text : Str) : List Str := (streamLines text).filterMap fun l =>
  match loads l.1 with
  | .ok _ => none
  | .error e => some (lit "line " ++ zeroPad 1 l.2 ++ lit ": malformed record: " ++ exc e)

/-- The loop over the records. `faults` is what writing each artifact raises. The ledger stays as it
is when a call of `produce` raises. -/
def produceAll : List PyVal → LedgerDir → (ℕ → Option PyError) → Progress →
    Except (PyError × Progress) Progress × LedgerDir
  | [], dir, _, progress => (.ok progress, dir)
  | record :: records, dir, faults, progress =>
    match produce P lib .conversation record dir gitHead false (faults 0) with
    | .error e => (.error (e, progress), dir)
    | .ok (result, dir') => produceAll records dir' (fun n => faults (n + 1)) (progress.add result)

/-- `ingest_stream` -/
def ingestFile (stream : Option Bytes) (dir : LedgerDir) (faults : ℕ → Option PyError) :
    Except PyError StreamReport × LedgerDir :=
  match stream with
  | none => (.ok ⟨.noRecords, 0, 0, 0, [], 0, []⟩, dir)
  | some data =>
    match decode data with
    | none => (.error unicodeDecodeError, dir)
    | some text =>
      let text := universalNewlines text
      let records := streamRecords text
      if streamErrors exc text ≠ []
        then (.ok ⟨.error, records.length, 0, 0, streamErrors exc text, 0, []⟩, dir)
      else
        match produceAll P lib gitHead records dir faults ⟨0, 0, []⟩ with
        | (.error (e, progress), dir') =>
          if isRejection e then
            (.ok ⟨.error, records.length, progress.ingested, progress.skipped,
              [lit "record rejected: " ++ exc e], 0, []⟩, dir')
          else (.error e, dir')
        | (.ok progress, dir') =>
          (.ok ⟨if progress.ingested = 0 then .noNewEvents else .ok, records.length,
            progress.ingested, progress.skipped, [], dir'.claims.length, progress.claimIds⟩, dir')

end

/-! ## Lines -/

section

variable {cr : Bool} {s : Str}

/-- A line that ends with a brace before the newline: whatever comes before it, the rest is split as
a text of its own. -/
theorem linesAfter_brace : ∀ (u : Str) (cr : Bool), ∃ ls w, linesAfter cr (u ++ 125 :: 10 :: s) =
    ls ++ (w ++ [125]) :: linesAfter false s
  | [], cr => ⟨[], [], by simp [linesAfter, isLineEnd, consLine]⟩
  | c :: u, cr => by
    rw [List.cons_append, linesAfter]
    split
    · exact linesAfter_brace u false
    split
    · obtain ⟨ls, w, h⟩ := linesAfter_brace u (decide (c = 13))
      exact ⟨[] :: ls, w, by rw [h, List.cons_append]⟩
    · obtain ⟨ls, w, h⟩ := linesAfter_brace u false
      rw [h]
      cases ls with
      | nil => exact ⟨[], c :: w, rfl⟩
      | cons l ls => exact ⟨(c :: l) :: ls, w, rfl⟩

/-- The first line end of a text splits it. -/
theorem linesAfter_end {c : CodePoint} (hc : isLineEnd c = true) : ∀ {p : Str},
    (∀ d ∈ p, isLineEnd d = false) → linesAfter false (p ++ c :: s) = p :: linesAfter (c = 13) s
  | [], _ => by simp [linesAfter, hc]
  | d :: p, h => by
    have hd := h d List.mem_cons_self
    rw [List.cons_append, linesAfter, linesAfter_end hc fun e he => h e (List.mem_cons_of_mem _ he)]
    simp [hd, consLine]

/-- The lines that are not blank. -/
def filled (lines : List Str) : List Str := lines.filter fun l => strip l ≠ []

theorem filled_cons {c : CodePoint} {l : Str} (hc : c ∈ l) (hspace : isSpace c = false)
    (ls : List Str) : filled (l :: ls) = l :: filled ls := by
  unfold filled
  rw [List.filter_cons_of_pos]
  simpa using strip_ne_nil hc hspace

theorem filled_append (a b : List Str) : filled (a ++ b) = filled a ++ filled b :=
  List.filter_append _ _

/-- A text in braces gives a line, and the lines after it stay as they are. -/
theorem length_filled_braces (u : Str) : (filled (linesAfter false s)).length + 1 ≤
    (filled (linesAfter cr (u ++ 125 :: 10 :: s))).length := by
  obtain ⟨ls, w, h⟩ := linesAfter_brace u cr
  have hbrace : 125 ∈ w ++ [125] := by simp
  rw [h, filled_append, filled_cons hbrace (by decide), List.length_append, List.length_cons]
  omega

/-- A text in braces with a line end gives two at least. -/
theorem length_filled_broken {u : Str} (hbroken : ∃ c ∈ u, isLineEnd c = true) :
    (filled (linesAfter false s)).length + 2 ≤
    (filled (linesAfter false (123 :: u ++ 125 :: 10 :: s))).length := by
  obtain ⟨c, hfirst⟩ := Option.isSome_iff_exists.mp (List.find?_isSome.mpr hbroken)
  obtain ⟨hc, p, q, rfl, hp⟩ := List.find?_eq_some_iff_append.mp hfirst
  have hopen : ∀ d ∈ 123 :: p, isLineEnd d = false :=
    List.forall_mem_cons.mpr ⟨by decide, fun d hd => by simpa using hp d hd⟩
  have hsplit : 123 :: (p ++ c :: q) ++ 125 :: 10 :: s = (123 :: p) ++ c ::
    (q ++ 125 :: 10 :: s) := by simp
  have hrest : _ ≤ (filled (linesAfter (decide (c = 13)) (q ++ 125 :: 10 :: s))).length :=
    length_filled_braces q
  rw [hsplit, linesAfter_end hc hopen, filled_cons List.mem_cons_self (by decide), List.length_cons]
  omega

end

/-! ## What is read back -/

/-- The characters at which `splitlines` breaks a line and that JSON leaves as they are: U+0085,
U+2028 and U+2029. -/
def BreaksLine (c : CodePoint) : Prop := c = 133 ∨ c = 8232 ∨ c = 8233

/-- The records of a stream as they are read, where every line of it is JSON. -/
def StreamReads (exc : PyError → Str) (records : List PyVal) : Option Bytes → Prop
  | none => records = []
  | some data => ∃ text, decode data = some text ∧ streamErrors exc (universalNewlines text) = [] ∧
      streamRecords (universalNewlines text) = records

section

variable {P : Platform} {lib : Texts} {exc : PyError → Str} {records : List PyVal} {record : PyVal}

/-- The text of a record. -/
def recordText (P : Platform) (record : PyVal) : Str :=
  render plainStyle (toJson P.keySort true record)

/-- The text of a stream that the records were appended to. -/
def streamText (P : Platform) (records : List PyVal) : Str :=
  records.flatMap fun record => recordText P record ++ [10]

theorem recordText_braces (h : isDict record = true) :
    ∃ u, recordText P record = 123 :: u ++ [125] := by
  cases record with
  | dict items => exact render_obj_ends plainStyle _
  | _ => cases h

theorem pad_plain : ∀ c ∈ [(32 : CodePoint)], 32 ≤ c.val := fun c hc => by
  rw [List.mem_singleton.mp hc]
  decide

theorem control_recordText {c : CodePoint} (hc : c ∈ recordText P record) : 32 ≤ c.val :=
  noControl_render pad_plain pad_plain _ c hc

theorem breaksLine_iff {c : CodePoint} (hc : 32 ≤ c.val) : isLineEnd c = true ↔ BreaksLine c := by
  have h133 : c = 133 ↔ c.val = 133 := Fin.ext_iff
  have h8232 : c = 8232 ↔ c.val = 8232 := Fin.ext_iff
  have h8233 : c = 8233 ↔ c.val = 8233 := Fin.ext_iff
  unfold isLineEnd BreaksLine
  rw [h133, h8232, h8233, decide_eq_true_eq]
  omega

/-- A record's line is broken exactly where one of its texts has such a character. -/
theorem recordText_broken_iff : (∃ c ∈ recordText P record, isLineEnd c = true) ↔
    ∃ s ∈ (toJson P.keySort true record).texts, ∃ c ∈ s, BreaksLine c := by
  have hraw : ∀ c, BreaksLine c → 128 ≤ c.val := by
    rintro c (rfl | rfl | rfl) <;> decide
  constructor
  · rintro ⟨c, hc, hend⟩
    have hbreaks := (breaksLine_iff (control_recordText hc)).mp hend
    obtain ⟨s, hs, hmem⟩ := (mem_render_iff (hraw c hbreaks) rfl _).mp hc
    exact ⟨s, hs, c, hmem, hbreaks⟩
  · rintro ⟨s, hs, c, hmem, hbreaks⟩
    have hc : c ∈ recordText P record := (mem_render_iff (hraw c hbreaks) rfl _).mpr ⟨s, hs, hmem⟩
    exact ⟨c, hc, (breaksLine_iff (control_recordText hc)).mpr hbreaks⟩

/-! ### The file -/

theorem recordLine_eq_ok {line : Str} (h : recordLine P lib record = .ok line) :
    isDict record = true ∧ line = recordText P record ++ [10] := by
  obtain ⟨_, hvalid, h⟩ := bind_eq_ok.mp h
  obtain ⟨text, htext, h⟩ := bind_eq_ok.mp h
  obtain ⟨_, hcheck, -⟩ := bind_eq_ok.mp hvalid
  obtain ⟨_, hdict, -⟩ := bind_eq_ok.mp hcheck
  refine ⟨by simpa using raiseIf_eq_ok.mp hdict, ?_⟩
  obtain rfl := Except.ok.inj h
  unfold dumps at htext
  split at htext
  · cases htext
  · rw [← Except.ok.inj htext]
    rfl

theorem encode_nil : encode [] = some ((none : Option Bytes).getD []) := rfl

theorem appendRecords_eq_ok : ∀ {records : List PyVal} {stream stream' : Option Bytes} {text : Str},
    encode text = some (stream.getD []) → records.foldlM (appendRecord P lib) stream = .ok stream' →
      encode (text ++ streamText P records) = some (stream'.getD []) ∧
      (∀ record ∈ records, isDict record = true) ∧ (stream' = none → stream = none ∧ records = [])
  | [], stream, stream', text, htext, h => by
    obtain rfl := Except.ok.inj h
    simpa [streamText] using htext
  | record :: records, stream, stream', text, htext, h => by
    rw [List.foldlM_cons] at h
    obtain ⟨next, happend, h⟩ := bind_eq_ok.mp h
    obtain ⟨line, hline, hwrite⟩ := bind_eq_ok.mp happend
    obtain ⟨b, hb, hnext⟩ := bind_eq_ok.mp hwrite
    obtain ⟨hdict, rfl⟩ := recordLine_eq_ok hline
    obtain rfl := Except.ok.inj hnext
    have hnext := encode_append htext (encodeE_eq_ok.mp hb)
    obtain ⟨hall, hdicts, hnone⟩ := appendRecords_eq_ok hnext h
    rw [List.append_assoc] at hall
    exact ⟨hall, List.forall_mem_cons.mpr ⟨hdict, hdicts⟩, fun he =>
      absurd (hnone he).1 (Option.some_ne_none _)⟩

/-! ### The lines of the file -/

theorem streamText_noCr : (13 : CodePoint) ∉ streamText P records := by
  intro h
  obtain ⟨record, -, hc⟩ := List.mem_flatMap.mp h
  rcases List.mem_append.mp hc with hc | hc
  · exact absurd (control_recordText hc) (by decide)
  · exact absurd (List.mem_singleton.mp hc) (by decide)

theorem streamLines_fst (text : Str) :
    (streamLines text).map Prod.fst = (filled (splitlines text)).map strip := by
  have hfilter : streamLines text = (((splitlines text).map strip).zipIdx 1).filter
      ((fun l : Str => decide (l ≠ [])) ∘ Prod.fst) := rfl
  rw [hfilter, ← List.filter_map, List.zipIdx_map_fst, List.filter_map]
  rfl

theorem length_streamLines (text : Str) :
    (streamLines text).length = (filled (splitlines text)).length := by
  have h := congrArg List.length (streamLines_fst text)
  rwa [List.length_map, List.length_map] at h

/-- Without an error every line is a record. -/
theorem length_streamRecords {text : Str} (h : streamErrors exc text = []) :
    (streamRecords text).length = (streamLines text).length := by
  refine List.filterMap_length_eq_length.mpr fun l hl => ?_
  have hnone := List.filterMap_eq_nil_iff.mp h l hl
  cases hload : loads l.1 with
  | ok v => rfl
  | error e => simp [hload] at hnone

/-- Each record gives a line at least, and a broken one two. -/
theorem length_filled_streamText : ∀ {records : List PyVal},
    (∀ record ∈ records, isDict record = true) →
    records.length ≤ (filled (splitlines (streamText P records))).length ∧
      ((∃ record ∈ records, ∃ c ∈ recordText P record, isLineEnd c = true) →
        records.length < (filled (splitlines (streamText P records))).length)
  | [], _ => ⟨Nat.zero_le _, fun ⟨_, hmem, _⟩ => absurd hmem List.not_mem_nil⟩
  | record :: records, h => by
    obtain ⟨hdict, hdicts⟩ := List.forall_mem_cons.mp h
    obtain ⟨hle, hlt⟩ := length_filled_streamText hdicts
    obtain ⟨u, hu⟩ := recordText_braces (P := P) hdict
    have htext : streamText P (record :: records) = 123 :: u ++ 125 :: 10 ::
        streamText P records := by
      rw [streamText, List.flatMap_cons, hu, ← streamText]
      simp
    have hline : (filled (splitlines (streamText P records))).length + 1 ≤
        (filled (splitlines (123 :: u ++ 125 :: 10 :: streamText P records))).length :=
        length_filled_braces (123 :: u)
    rw [htext, List.length_cons]
    refine ⟨by omega, fun ⟨broken, hmem, c, hc, hend⟩ => ?_⟩
    rcases List.mem_cons.mp hmem with rfl | hmem
    · have hbroken : ∃ c ∈ u, isLineEnd c = true := by
        refine ⟨c, ?_, hend⟩
        rw [hu, List.cons_append, List.mem_cons, List.mem_append, List.mem_singleton] at hc
        rcases hc with rfl | hc | rfl
        · cases hend
        · exact hc
        · cases hend
      have htwo : (filled (splitlines (streamText P records))).length + 2 ≤
        (filled (splitlines (123 :: u ++ 125 :: 10 :: streamText P records))).length :=
        length_filled_broken hbroken
      omega
    · have := hlt ⟨broken, hmem, c, hc, hend⟩
      omega

/-- A whole line is read as its record. -/
theorem loads_recordText (h : isDict record = true) : strip (recordText P record) =
    recordText P record ∧
    recordText P record ≠ [] ∧ loads (recordText P record) = .ok (reload P.keySort record) := by
  obtain ⟨u, hu⟩ := recordText_braces (P := P) h
  refine ⟨?_, by rw [hu]; simp, ?_⟩
  · have hstrip : strip (123 :: u ++ [125] ++ []) = 123 :: u ++ [125] :=
      strip_braces fun c hc => absurd hc List.not_mem_nil
    rwa [List.append_nil, ← hu] at hstrip
  · rw [loads, recordText, parse_render plainStyle rfl]
    rfl

/-- Where no line is broken, the records are read as JSON gives them back. -/
theorem streamRecords_streamText (hdict : ∀ record ∈ records, isDict record = true)
    (hwhole : ∀ record ∈ records, ∀ c ∈ recordText P record, isLineEnd c = false) :
    streamErrors exc (streamText P records) = [] ∧ streamRecords (streamText P records) =
        records.map (reload P.keySort) := by
  have hlines : (streamLines (streamText P records)).map Prod.fst = records.map (recordText P) := by
    have hsplit : splitlines (streamText P records) = records.map (recordText P) := by
      have hends : ∀ l ∈ records.map (recordText P), ∀ c ∈ l, isLineEnd c = false := by
        simpa using hwhole
      rw [← splitlines_lines hends, streamText, List.flatMap_map]
    have hfilled : filled (records.map (recordText P)) = records.map (recordText P) := by
      refine List.filter_eq_self.mpr fun l hl => ?_
      obtain ⟨record, hmem, rfl⟩ := List.mem_map.mp hl
      obtain ⟨hstrip, hne, -⟩ := loads_recordText (P := P) (hdict record hmem)
      simpa [hstrip] using hne
    rw [streamLines_fst, hsplit, hfilled, List.map_map]
    exact List.map_congr_left fun record hmem => (loads_recordText (hdict record hmem)).1
  constructor
  · refine List.filterMap_eq_nil_iff.mpr fun l hl => ?_
    have hmem : l.1 ∈ records.map (recordText P) := hlines ▸ List.mem_map_of_mem hl
    obtain ⟨record, hrecord, htext⟩ := List.mem_map.mp hmem
    rw [← htext, (loads_recordText (hdict record hrecord)).2.2]
  · have hfst : streamRecords (streamText P records) =
        ((streamLines (streamText P records)).map Prod.fst).filterMap fun l =>
        (loads l).toOption := by
      rw [List.filterMap_map]
      rfl
    rw [hfst, hlines, List.filterMap_map, ← List.filterMap_eq_map]
    refine List.filterMap_congr fun record hmem => ?_
    rw [Function.comp_apply, (loads_recordText (hdict record hmem)).2.2]
    rfl

/-- **The records of a stream are read back**, as JSON gives them, exactly where none of their texts
has a character that breaks a line. -/
theorem streamReads_iff {stream : Option Bytes}
    (h : records.foldlM (appendRecord P lib) none = .ok stream) :
    StreamReads exc (records.map (reload P.keySort)) stream ↔
      ∀ record ∈ records, ∀ s ∈ (toJson P.keySort true record).texts, ∀ c ∈ s, ¬BreaksLine c := by
  obtain ⟨hencode, hdict, hnone⟩ := appendRecords_eq_ok (encode_nil) h
  have hbroken : (∀ record ∈ records, ∀ s ∈ (toJson P.keySort true record).texts, ∀ c ∈ s,
    ¬BreaksLine c) ↔ ∀ record ∈ records, ∀ c ∈ recordText P record, isLineEnd c = false := by
    refine forall₂_congr fun record _ => ?_
    have hnot : ¬(∃ c ∈ recordText P record, isLineEnd c = true) ↔ _ :=
      not_congr recordText_broken_iff
    simpa using hnot.symm
  rw [hbroken]
  cases stream with
  | none =>
    obtain ⟨-, rfl⟩ := hnone rfl
    exact iff_of_true rfl fun _ hmem => absurd hmem List.not_mem_nil
  | some data =>
    have hdecode : decode data = some (streamText P records) := decode_encode hencode
    have hread : universalNewlines (streamText P records) = streamText P records :=
      universalNewlines_of_not_mem streamText_noCr
    constructor
    · rintro ⟨text, htext, herrors, hrecords⟩
      obtain rfl := Option.some.inj (hdecode.symm.trans htext)
      rw [hread] at herrors hrecords
      -- as many records as lines: so no line was broken
      have hlength := length_streamRecords herrors
      rw [hrecords, List.length_map, length_streamLines] at hlength
      intro record hmem c hc
      by_contra hend
      have hmore := (length_filled_streamText hdict).2 ⟨record, hmem, c, hc, by simpa using hend⟩
      omega
    · intro hwhole
      obtain ⟨herrors, hrecords⟩ := streamRecords_streamText hdict hwhole
      exact ⟨_, hdecode, by rw [hread, herrors], by rw [hread, hrecords]⟩

end

/-! ## The loop -/

section

variable {P : Platform} {lib : Texts} {exc : PyError → Str} {gitHead : Str} {record : PyVal}
  {records : List PyVal}
  {dir dir' : LedgerDir} {faults : ℕ → Option PyError} {progress progress' : Progress}

/-- The record is in the cursor. -/
def Known (P : Platform) (lib : Texts) (gitHead : Str) (dir : LedgerDir) (record : PyVal) : Prop :=
  ∃ p, Producer.conversation.prepare P lib record gitHead = .ok p ∧ p.recordHash ∈ dir.processed

theorem Known.mono (h : Known P lib gitHead dir record) (hsub : dir.processed ⊆ dir'.processed) :
    Known P lib gitHead dir' record :=
  h.imp fun _ hp => ⟨hp.1, hsub hp.2⟩

theorem produce_known (h : Known P lib gitHead dir record) (fault : Option PyError) :
    ∃ result, produce P lib .conversation record dir gitHead false fault = .ok (result, dir) ∧
    result.ingested = false := by
  obtain ⟨p, hp, hold⟩ := h
  obtain ⟨result, hproduce, hingested, -⟩ := produce_replayed hp hold fault
  exact ⟨result, hproduce, hingested⟩

variable {result : Produced}

/-- What a call does with a record that is not in the cursor, where it returns. -/
theorem produce_new {fault : Option PyError} (hnew : ¬Known P lib gitHead dir record)
    (h : produce P lib .conversation record dir gitHead false fault = .ok (result, dir')) :
    Known P lib gitHead dir' record ∧ dir.processed ⊆ dir'.processed ∧
        ¬dir'.processed ⊆ dir.processed := by
  obtain ⟨p, hp, h⟩ := bind_eq_ok.mp h
  have hnot : p.recordHash ∉ dir.processed := fun hold => hnew ⟨p, hp, hold⟩
  have hdir : dir' = ingest.next p dir (claimEntry p (byId dir.claims p.artifact.claimId)) := by
    have hold : ¬(p.recordHash ∈ dir.processed ∧ false = false) := fun hold => hnot hold.1
    unfold ingest at h
    rw [if_neg hold, if_neg Bool.false_ne_true] at h
    cases fault with
    | none => exact (Prod.mk.inj (Except.ok.inj h)).2.symm
    | some e =>
      simp only at h
      split at h
      · exact (Prod.mk.inj (Except.ok.inj h)).2.symm
      · cases h
  have hmem : p.recordHash ∈ dir'.processed := by
    rw [hdir]
    exact mem_sortedSet.mpr (List.mem_append_right _ (List.mem_singleton_self _))
  refine ⟨⟨p, hp, hmem⟩, fun x hx => ?_, fun hsub => hnot (hsub hmem)⟩
  rw [hdir]
  exact mem_sortedSet.mpr (List.mem_append_left _ hx)

theorem produce_processed {fault : Option PyError}
    (h : produce P lib .conversation record dir gitHead false fault = .ok (result, dir')) :
    Known P lib gitHead dir' record ∧ dir.processed ⊆ dir'.processed := by
  by_cases hknown : Known P lib gitHead dir record
  · obtain ⟨result', hproduce, -⟩ := produce_known hknown fault
    obtain ⟨-, rfl⟩ := Prod.mk.inj (Except.ok.inj (hproduce.symm.trans h))
    exact ⟨hknown, List.Subset.refl _⟩
  · obtain ⟨hafter, hsub, -⟩ := produce_new hknown h
    exact ⟨hafter, hsub⟩

theorem produceAll_error {e : PyError}
    (h : produce P lib .conversation record dir gitHead false (faults 0) = .error e) :
    produceAll P lib gitHead (record :: records) dir faults progress =
    (.error (e, progress), dir) := by
  rw [produceAll, h]

theorem produceAll_ok
    (h : produce P lib .conversation record dir gitHead false (faults 0) = .ok (result, dir')) :
    produceAll P lib gitHead (record :: records) dir faults progress =
      produceAll P lib gitHead records dir' (fun n => faults (n + 1)) (progress.add result) := by
  rw [produceAll, h]

theorem produceAll_mono : ∀ (records : List PyVal) (dir : LedgerDir) (faults : ℕ → Option PyError)
    (progress : Progress),
    dir.processed ⊆ (produceAll P lib gitHead records dir faults progress).2.processed
  | [], _, _, _ => List.Subset.refl _
  | record :: records, dir, faults, progress => by
    cases hproduce : produce P lib .conversation record dir gitHead false (faults 0) with
    | error e =>
      rw [produceAll_error hproduce]
      exact List.Subset.refl _
    | ok next =>
      rw [produceAll_ok hproduce]
      exact List.Subset.trans (produce_processed hproduce).2 (produceAll_mono records next.2 _ _)

/-- Up to the record that is refused, every record is in the cursor. -/
def StopsKnown (P : Platform) (lib : Texts) (gitHead : Str) (records : List PyVal) (dir : LedgerDir)
    (faults : ℕ → Option PyError) : Prop :=
  ∃ before record after, records = before ++ record :: after ∧
    (∀ r ∈ before, Known P lib gitHead dir r) ∧
    ∃ e, produce P lib .conversation record dir gitHead false (faults before.length) = .error e

theorem stopsKnown_cons (hknown : Known P lib gitHead dir record)
    (h : produce P lib .conversation record dir gitHead false (faults 0) = .ok (result, dir')) :
    StopsKnown P lib gitHead (record :: records) dir faults ↔ StopsKnown P lib gitHead records dir
        fun n => faults (n + 1) := by
  constructor
  · rintro ⟨before, stopped, after, hsplit, hbefore, e, he⟩
    cases before with
    | nil =>
      obtain ⟨rfl, -⟩ := List.cons.inj hsplit
      exact absurd (h.symm.trans he) (by simp)
    | cons r before =>
      obtain ⟨rfl, rfl⟩ := List.cons.inj hsplit
      exact ⟨before, stopped, after, rfl, fun r hr => hbefore r (List.mem_cons_of_mem _ hr), e, he⟩
  · rintro ⟨before, stopped, after, rfl, hbefore, e, he⟩
    exact ⟨record :: before, stopped, after, rfl, List.forall_mem_cons.mpr ⟨hknown, hbefore⟩, e, he⟩

/-- **An error leaves the ledger as it was** exactly where every record before the refused one was
in the cursor. -/
theorem produceAll_eq_self_iff : ∀ (records : List PyVal) (dir : LedgerDir)
    (faults : ℕ → Option PyError) (progress : Progress)
    {q : PyError × Progress}, (produceAll P lib gitHead records dir faults progress).1 = .error q →
      ((produceAll P lib gitHead records dir faults progress).2 = dir ↔
        StopsKnown P lib gitHead records dir faults)
  | [], _, _, _, _, h => by cases h
  | record :: records, dir, faults, progress, q, h => by
    cases hproduce : produce P lib .conversation record dir gitHead false (faults 0) with
    | error e =>
      rw [produceAll_error hproduce]
      exact iff_of_true rfl ⟨[], record, records, rfl, fun r hr => absurd hr List.not_mem_nil,
        e, hproduce⟩
    | ok next =>
      obtain ⟨result, next⟩ := next
      rw [produceAll_ok hproduce] at h ⊢
      by_cases hknown : Known P lib gitHead dir record
      · obtain ⟨result', hskip, -⟩ := produce_known hknown (faults 0)
        obtain ⟨-, rfl⟩ := Prod.mk.inj (Except.ok.inj (hskip.symm.trans hproduce))
        rw [stopsKnown_cons hknown hproduce]
        exact produceAll_eq_self_iff records dir _ _ h
      · -- the record has come into the cursor, and nothing takes it out
        obtain ⟨-, -, hgrown⟩ := produce_new hknown hproduce
        refine iff_of_false (fun hsame => hgrown ?_) ?_
        · have hmono : next.processed ⊆
            (produceAll P lib gitHead records next (fun n => faults (n + 1))
              (progress.add result)).2.processed :=
            produceAll_mono _ _ _ _
          rwa [hsame] at hmono
        · rintro ⟨before, stopped, after, hsplit, hbefore, e, he⟩
          cases before with
          | nil =>
            obtain ⟨rfl, -⟩ := List.cons.inj hsplit
            exact absurd (hproduce.symm.trans he) (by simp)
          | cons r before =>
            obtain ⟨rfl, -⟩ := List.cons.inj hsplit
            exact hknown (hbefore _ List.mem_cons_self)

theorem known_of_produceAll : ∀ (records : List PyVal) (dir : LedgerDir)
    (faults : ℕ → Option PyError) (progress : Progress)
    {q : Progress}, (produceAll P lib gitHead records dir faults progress).1 = .ok q →
      ∀ record ∈ records,
      Known P lib gitHead (produceAll P lib gitHead records dir faults progress).2 record
  | [], _, _, _, _, _ => fun _ hmem => absurd hmem List.not_mem_nil
  | record :: records, dir, faults, progress, q, h => by
    cases hproduce : produce P lib .conversation record dir gitHead false (faults 0) with
    | error e =>
      rw [produceAll_error hproduce] at h
      cases h
    | ok next =>
      rw [produceAll_ok hproduce] at h ⊢
      exact List.forall_mem_cons.mpr ⟨(produce_processed hproduce).1.mono (produceAll_mono _ _ _ _),
        known_of_produceAll records next.2 _ _ h⟩

/-- **Records that are in the cursor** are skipped. -/
theorem produceAll_again : ∀ {records : List PyVal} {dir : LedgerDir} (faults : ℕ → Option PyError)
    (progress : Progress), (∀ record ∈ records, Known P lib gitHead dir record) →
      ∃ q, produceAll P lib gitHead records dir faults progress = (.ok q, dir) ∧
      q.ingested = progress.ingested
  | [], _, _, progress, _ => ⟨progress, rfl, rfl⟩
  | record :: records, dir, faults, progress, h => by
    obtain ⟨hknown, hrest⟩ := List.forall_mem_cons.mp h
    obtain ⟨result, hproduce, hingested⟩ := produce_known hknown (faults 0)
    obtain ⟨q, hq, hcount⟩ := produceAll_again (fun n => faults (n + 1)) (progress.add result) hrest
    refine ⟨q, by rw [produceAll_ok hproduce, hq], ?_⟩
    rw [hcount, Progress.add]
    simp [hingested]

end

/-! ## The whole stream -/

/-- Where an error leaves the ledger as it was: a line is no JSON, or all records before the one
that is refused were in the cursor. -/
def LeavesLedger (P : Platform) (lib : Texts) (exc : PyError → Str) (gitHead : Str)
    (stream : Option Bytes) (dir : LedgerDir) (faults : ℕ → Option PyError) : Prop :=
  ∃ data text, stream = some data ∧ decode data = some text ∧
    (streamErrors exc (universalNewlines text) ≠ [] ∨
      StopsKnown P lib gitHead (streamRecords (universalNewlines text)) dir faults)

section

variable {P : Platform} {lib : Texts} {exc : PyError → Str} {gitHead : Str} {stream : Option Bytes}
  {dir dir' : LedgerDir} {faults : ℕ → Option PyError} {report : StreamReport}

theorem ingestFile_error (h : ingestFile P lib exc gitHead stream dir faults = (.ok report, dir'))
    (hstatus : report.status = .error) :
    dir' = dir ↔ LeavesLedger P lib exc gitHead stream dir faults := by
  cases stream with
  | none =>
    cases h
    cases hstatus
  | some data =>
    cases hdecode : decode data with
    | none =>
      simp only [ingestFile, hdecode] at h
      cases h
    | some text =>
      have hleaves : LeavesLedger P lib exc gitHead (some data) dir faults ↔
        streamErrors exc (universalNewlines text) ≠ [] ∨
          StopsKnown P lib gitHead (streamRecords (universalNewlines text)) dir faults := by
        constructor
        · rintro ⟨data', text', hdata, htext, hcase⟩
          obtain rfl := Option.some.inj hdata
          obtain rfl := Option.some.inj (hdecode.symm.trans htext)
          exact hcase
        · exact fun hcase => ⟨data, text, rfl, hdecode, hcase⟩
      rw [hleaves]
      simp only [ingestFile, hdecode] at h
      by_cases herrors : streamErrors exc (universalNewlines text) = []
      · rw [if_neg (not_not.mpr herrors)] at h
        rcases hrun : produceAll P lib gitHead (streamRecords (universalNewlines text)) dir faults
          ⟨0, 0, []⟩ with ⟨q, dir''⟩
        rw [hrun] at h
        cases q with
        | error q =>
          have hself := produceAll_eq_self_iff _ _ _ _ (congrArg Prod.fst hrun)
          rw [hrun] at hself
          have hdir : dir'' = dir' := by
            simp only at h
            split at h <;> exact (Prod.mk.inj h).2
          rw [← hdir, hself]
          simp [herrors]
        | ok q =>
          obtain ⟨hreport, -⟩ := Prod.mk.inj h
          rw [← Except.ok.inj hreport] at hstatus
          simp only at hstatus
          split at hstatus <;> cases hstatus
      · rw [if_pos herrors] at h
        obtain ⟨-, rfl⟩ := Prod.mk.inj h
        exact iff_of_true rfl (.inl herrors)

/-- **A stream that is read without an error is read again without a change.** -/
theorem ingestFile_again (h : ingestFile P lib exc gitHead stream dir faults = (.ok report, dir'))
    (hstatus : report.status ≠ .error)
    (faults' : ℕ → Option PyError) : ∃ again, ingestFile P lib exc gitHead stream dir' faults' =
    (.ok again, dir') ∧ again.ingested = 0 ∧ again.status ≠ .error := by
  cases stream with
  | none =>
    cases h
    exact ⟨_, rfl, rfl, fun h => by cases h⟩
  | some data =>
    cases hdecode : decode data with
    | none =>
      simp only [ingestFile, hdecode] at h
      cases h
    | some text =>
      simp only [ingestFile, hdecode] at h ⊢
      by_cases herrors : streamErrors exc (universalNewlines text) = []
      · rw [if_neg (not_not.mpr herrors)] at h ⊢
        rcases hrun : produceAll P lib gitHead (streamRecords (universalNewlines text)) dir faults
          ⟨0, 0, []⟩ with ⟨q, dir''⟩
        rw [hrun] at h
        cases q with
        | error q =>
          simp only at h
          split at h
          · obtain ⟨hreport, -⟩ := Prod.mk.inj h
            exact absurd (by rw [← Except.ok.inj hreport]) hstatus
          · cases h
        | ok q =>
          obtain ⟨-, rfl⟩ := Prod.mk.inj h
          have hknown := known_of_produceAll _ _ _ _ (congrArg Prod.fst hrun)
          rw [hrun] at hknown
          obtain ⟨q', hagain, hcount⟩ := produceAll_again faults' ⟨0, 0, []⟩ hknown
          rw [hagain]
          refine ⟨_, rfl, hcount, ?_⟩
          simp [hcount]
      · rw [if_pos herrors] at h
        obtain ⟨hreport, -⟩ := Prod.mk.inj h
        exact absurd (by rw [← Except.ok.inj hreport]) hstatus

end

/-- **The stream.** The records that `append_record` accepts are read back exactly where no text of
theirs has a character that breaks a line; a status `error` has left the ledger as it was exactly
where a line is no JSON or the records before the refused one were in the cursor; and after any
other status the same stream, read again, ingests nothing and changes nothing. -/
theorem stream_law (P : Platform) (lib : Texts) (exc : PyError → Str) (gitHead : Str) :
    (∀ (records : List PyVal) (stream : Option Bytes), records.foldlM (appendRecord P lib) none =
      .ok stream → (StreamReads exc (records.map (reload P.keySort)) stream ↔
        ∀ record ∈ records, ∀ s ∈ (toJson P.keySort true record).texts, ∀ c ∈ s, ¬BreaksLine c) ∧
      ∀ record ∈ records, Parsed record → Same (reload P.keySort record) record) ∧
    ∀ stream dir faults report dir', ingestFile P lib exc gitHead stream dir faults =
      (.ok report, dir') →
      (report.status = .error → (dir' = dir ↔ LeavesLedger P lib exc gitHead stream dir faults)) ∧
      (report.status ≠ .error → ∀ faults', ∃ again,
        ingestFile P lib exc gitHead stream dir' faults' = (.ok again, dir') ∧
        again.ingested = 0 ∧ again.status ≠ .error) :=
  ⟨fun _ _ h => ⟨streamReads_iff h, fun _ _ hparsed => same_reload P.keySort hparsed⟩,
    fun _ _ _ _ _ h => ⟨ingestFile_error h, ingestFile_again h⟩⟩

/-! ## A question in two lines -/

/-- A question with a line separator, and its answer. -/
def separatedRecord : PyVal :=
  match answerRecord "t1" "SUPPORTING" "09:00" with
  | .dict items => .dict (dictInsert (lit "query") (.str (lit "one" ++ 8232 :: lit "two")) items)
  | v => v

theorem stream_not_read : ¬∀ (P : Platform) (lib : Texts) (exc : PyError → Str)
    (records : List PyVal) (stream : Option Bytes),
    records.foldlM (appendRecord P lib) none = .ok stream →
    StreamReads exc (records.map (reload P.keySort)) stream := by
  intro h
  have haccepted : ([separatedRecord].foldlM (appendRecord backwards .plain) none).toOption.isSome =
    true := by decide +kernel
  obtain ⟨stream, hstream⟩ := Option.isSome_iff_exists.mp haccepted
  have happended := toOption_eq_some.mp hstream
  have hquery : lit "one" ++ 8232 :: lit "two" ∈
    (toJson backwards.keySort true separatedRecord).texts := by decide +kernel
  exact (streamReads_iff happended).mp (h _ _ (fun _ => []) _ _ happended) separatedRecord
    List.mem_cons_self _ hquery 8232 (by simp) (.inr (.inl rfl))

end Conversation
