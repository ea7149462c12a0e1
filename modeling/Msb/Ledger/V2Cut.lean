import Msb.Ledger.V2Crash

/-!
# Other files of a segment

What `verify` says of a segment that was cut off, and of one that was written anew.

* `cut_law` — a cut is noticed exactly where it is not at a line end
* `rewrite_law` — the records of a valid file in the format of an append are a valid file, and
  nothing is left to rewrite
-/

namespace Ledger

open Py HashChain

/-! ## A cut -/

section

variable {P : Platform} {T : V2Texts} {initial : Str} {data : Bytes}

/-- The first or the last byte around a cut is a newline. -/
def AtNewline (data : Bytes) (k : Nat) : Prop := data[k - 1]? = some (10 : UInt8) ∨
    data[k]? = some (10 : UInt8)

/-- The beginnings of a file that are segments. -/
structure Cuts (P : Platform) (T : V2Texts) (initial : Str) (data : Bytes) : Prop where
  whole : ∃ lines records, Segment P T initial data lines records
  closed : Closed data
  cut : ∀ k, k ≠ 0 → k ≤ data.length →
    ((∃ lines records, Segment P T initial (data.take k) lines records) ↔ AtNewline data k)

theorem cuts_nil : Cuts P T initial [] := by
  refine ⟨⟨[], [], segment_nil initial⟩, closed_nil, fun k h0 hk => ?_⟩
  exact absurd (Nat.le_zero.mp hk) h0

/-- A line is the bytes of its text and a newline. -/
theorem exists_text {record : V2Record} {bytes : Bytes}
    (hline : encode (recordLine P record ++ [10]) = some bytes) :
    ∃ b, b ++ [10] = bytes ∧ encode (recordLine P record) = some b := by
  obtain ⟨b, hb⟩ : ∃ b, encode (recordLine P record) = some b :=
    Option.isSome_iff_exists.mp (encode_append_isSome.mp (by rw [hline]; rfl)).1
  exact ⟨b, Option.some.inj
    ((encode_append hb (show encode [10] = some [10] from rfl)).symm.trans hline), hb⟩

/-- The newline of a line is its last byte. -/
theorem newline_iff {record : V2Record} {bytes : Bytes}
    (hline : encode (recordLine P record ++ [10]) = some bytes) (j : Nat) :
    bytes[j]? = some 10 ↔ j + 1 = bytes.length := by
  obtain ⟨b, rfl, hb⟩ := exists_text hline
  have hnone : (10 : UInt8) ∉ b := by
    intro h
    obtain ⟨c, hc, hval⟩ := mem_of_mem_encode hb (by decide) h
    exact not_mem_recordLine (by rw [hval]; decide) hc
  rw [List.length_append, List.length_singleton, Nat.add_right_cancel_iff]
  constructor
  · intro h
    rcases Nat.lt_trichotomy j b.length with hlt | heq | hgt
    · rw [List.getElem?_append_left hlt] at h
      exact absurd (List.mem_of_getElem? h) hnone
    · exact heq
    · rw [List.getElem?_eq_none (by simp; omega)] at h
      cases h
  · rintro rfl
    simp

theorem first_ne_newline {record : V2Record} {bytes : Bytes}
    (hline : encode (recordLine P record ++ [10]) = some bytes) : bytes[0]? ≠ some 10 := by
  rw [ne_eq, newline_iff hline]
  obtain ⟨b, rfl, hb⟩ := exists_text hline
  intro hone
  obtain rfl : b = [] := by simpa using hone
  obtain ⟨s, hs⟩ := braces_recordLine P record
  have hnil : recordLine P record = [] := encode_injective hb rfl
  rw [hs] at hnil
  cases hnil

theorem not_segment {e : PyError} (h : segmentRecords T data = .error e) :
    ¬∃ lines records, Segment P T initial data lines records := by
  rintro ⟨lines, records, hseg⟩
  rw [hseg.records] at h
  cases h

/-- An append keeps what is known of the cuts. -/
theorem Cuts.append (hwidth : ∀ b, (P.sha256 b).length = 32) (h : Cuts P T initial data)
    {recordedAt : Str} {call : SegmentCall}
    {record : V2Record} {line : Bytes} (hcall : call.Distinct)
    (hline : newLine P T initial recordedAt data call = .ok (record, line)) :
    Cuts P T initial (data ++ line) := by
  obtain ⟨⟨lines, records, hseg⟩, hclosed, hcut⟩ := h
  have hencode := ((newLine_iff hwidth hseg hcall).mp hline).2
  obtain ⟨hseg', hclosed'⟩ := newLine_spec hwidth hseg hclosed hcall hline
  refine ⟨⟨_, _, hseg'⟩, hclosed', fun k h0 hk => ?_⟩
  rw [List.length_append] at hk
  rcases Nat.lt_or_ge data.length k with hlt | hle
  · -- the cut is in the new line
    obtain ⟨j, rfl⟩ : ∃ j, k = data.length + (j + 1) := ⟨k - data.length - 1, by omega⟩
    have hnewline : AtNewline (data ++ line) (data.length + (j + 1)) ↔ j + 1 = line.length ∨
        j + 2 = line.length := by
      rw [AtNewline, show data.length + (j + 1) - 1 = data.length + j by omega,
        List.getElem?_append_right (by omega),
        List.getElem?_append_right (by omega), Nat.add_sub_cancel_left, Nat.add_sub_cancel_left,
        newline_iff hencode,
        newline_iff hencode]
    rw [hnewline, List.take_append, List.take_of_length_le (by omega), Nat.add_sub_cancel_left]
    by_cases hwhole : j + 1 = line.length
    · rw [List.take_of_length_le (by omega)]
      exact iff_of_true ⟨_, _, hseg'⟩ (.inl hwhole)
    · by_cases htext : j + 1 + 1 = line.length
      · exact iff_of_true ⟨_, _, (segment_text hwidth hseg hclosed hcall hline htext).1⟩
          (.inr htext)
      · obtain ⟨e, he⟩ := torn_unreadable hseg hclosed hencode (Nat.succ_ne_zero j) (by omega) htext
        exact iff_of_false (not_segment he) (by omega)
  · have hnewline : AtNewline (data ++ line) k ↔ AtNewline data k := by
      rw [AtNewline, AtNewline, List.getElem?_append_left (by omega)]
      rcases Nat.lt_or_eq_of_le hle with hlt | rfl
      · rw [List.getElem?_append_left hlt]
      · have hfirst : (data ++ line)[data.length]? ≠ some 10 := by
          rw [List.getElem?_append_right le_rfl, Nat.sub_self]
          exact first_ne_newline hencode
        simp [hfirst]
    rw [hnewline, List.take_append_of_le_length hle]
    exact hcut k h0 hle

theorem cuts_run (hwidth : ∀ b, (P.sha256 b).length = 32) {calls : List (SegmentEnv × SegmentCall)}
    (hcalls : ∀ call ∈ calls, call.1.Unwritten ∧ call.2.Distinct) {st : Bytes × List V2Record}
    (h : Cuts P T initial st.1) :
    Cuts P T initial (segmentRun P T initial st calls).1 := by
  induction calls generalizing st with
  | nil => exact h
  | cons call calls ih =>
    obtain ⟨⟨henv, hcall⟩, hcalls⟩ := List.forall_mem_cons.mp hcalls
    refine ih hcalls ?_
    rw [segmentStep]
    rcases segmentAppend_eq with ⟨e, he⟩ | ⟨record, line, hline, happ⟩
    · rw [he]
      exact h
    · cases hfault : call.1.fault with
      | none =>
        rw [hfault] at happ
        rw [happ]
        exact h.append hwidth hcall hline
      | some f =>
        obtain ⟨written, e⟩ := f
        obtain rfl : written = 0 := henv _ hfault
        rw [hfault] at happ
        simpa [happ] using h

end

/-- **A segment that was cut off verifies exactly where the cut is at a newline**, in front of it or
behind it: every other cut is noticed, and none at a line end is. -/
theorem cut_law {P : Platform} (hwidth : ∀ b, (P.sha256 b).length = 32) (T : V2Texts)
    (exc : PyError → Str) (initial : Str)
    (hinitial : isHash (.str initial) = true) (calls : List (SegmentEnv × SegmentCall))
    (hcalls : ∀ call ∈ calls, call.1.Unwritten ∧ call.2.Distinct) (k : Nat) (h0 : k ≠ 0)
    (hk : k ≤ (segmentRun P T initial ([], []) calls).1.length) :
    (∃ count, SegmentValid P T exc initial ((segmentRun P T initial ([], []) calls).1.take k) count)
      ↔ AtNewline (segmentRun P T initial ([], []) calls).1 k := by
  have hcuts :=
    cuts_run hwidth hcalls (show Cuts P T initial (([], []) : Bytes × List V2Record).1
      from cuts_nil)
  rw [← hcuts.cut k h0 hk]
  have hne : (segmentRun P T initial ([], []) calls).1.take k ≠ [] := by
    rw [ne_eq, List.take_eq_nil_iff, not_or]
    exact ⟨h0, fun h => h0 (by simpa [h] using hk)⟩
  constructor
  · rintro ⟨count, hvalid⟩
    obtain ⟨-, -, lines, records, hseg, -⟩ := segmentValid_iff.mp hvalid
    exact ⟨lines, records, hseg⟩
  · rintro ⟨lines, records, hseg⟩
    exact ⟨_, segmentValid_iff.mpr ⟨hne, hinitial, lines, records, hseg, rfl⟩⟩

/-- One append, cut behind its newline. -/
theorem cut_law_whole : ∃ count, SegmentValid counting sampleTexts (fun _ => []) genesisHash
    ((segmentRun counting sampleTexts genesisHash ([], []) [(⟨lit "x", none⟩, plainCall)]).1.take
      (segmentRun counting sampleTexts genesisHash ([], [])
        [(⟨lit "x", none⟩, plainCall)]).1.length) count := by
  have hseg : Segment counting sampleTexts genesisHash [] [] [] := segment_nil genesisHash
  obtain ⟨record, line, hline⟩ :=
    newLine_plainCall counting_width (show isHash (.str genesisHash) = true by decide) hseg
  have hdata :
      (segmentRun counting sampleTexts genesisHash ([], []) [(⟨lit "x", none⟩, plainCall)]).1 =
      line := by
    simp only [segmentRun, List.foldl_cons, List.foldl_nil, segmentStep, segmentAppend, hline,
      List.nil_append]
  have hpos := List.length_pos_iff.mpr (line_ne_nil counting_width hseg distinct_plainCall hline)
  have hencode := ((newLine_iff counting_width hseg distinct_plainCall).mp hline).2
  refine (cut_law counting_width sampleTexts (fun _ => []) genesisHash (by decide)
    [(⟨lit "x", none⟩, plainCall)]
    (by simp [SegmentEnv.Unwritten, distinct_plainCall]) _ (by rw [hdata]; omega) le_rfl).mpr ?_
  rw [hdata]
  exact .inl ((newline_iff hencode _).mpr (by omega))

/-! ## A file written anew -/

section

variable {P : Platform} {T : V2Texts} {initial : Str} {data : Bytes} {lines : List Str}
  {records : List V2Record} {record : V2Record}

/-- The records in the format of an append. -/
def rewritten (P : Platform) (records : List V2Record) : Str :=
  records.flatMap fun r => recordLine P r ++ [10]

/-- **A record that was hashed can be written.** -/
theorem Sealed.encode_recordLine (h : Sealed P record) :
    ∃ b, encode (recordLine P record) = some b := by
  obtain ⟨hparsed, hshaped, hash, hget, hsha⟩ := h
  obtain ⟨text, htext, hbytes⟩ := bind_eq_ok.mp hsha
  obtain ⟨b, hb, -⟩ := bind_eq_ok.mp hbytes
  obtain ⟨-, -, htext⟩ := bind_eq_ok.mp htext
  rw [dumps] at htext
  split_ifs at htext
  obtain rfl := Except.ok.inj htext
  have htexts :=
    (encode_render_isSome rfl _).mp (Option.isSome_iff_exists.mpr ⟨b, encodeE_eq_ok.mp hb⟩)
  refine Option.isSome_iff_exists.mp ((encode_render_isSome rfl _).mpr fun s hs => ?_)
  obtain ⟨p, hp, hps⟩ := mem_texts_dict.mp hs
  by_cases hkey : p.1 = .str (lit "record_hash")
  · -- the hash itself is hexadecimal
    have hvalue : p.2 = .str hash := by
      cases hparsed with
      | dict hd _ =>
      have hmem := getItem_mem hget
      exact congrArg Prod.snd (List.inj_on_of_nodup_map hd.nodup hp hmem hkey)
    have hhex : isHash (.str hash) = true := by
      have hfield := hshaped.recordHash
      rwa [field, hget, Option.getD_some] at hfield
    rcases hps with rfl | hps
    · rw [hkey]
      exact encode_isSome_of_ascii (ascii_of_all (by decide))
    · rw [hvalue] at hps
      obtain rfl : s = hash := by simpa [toJson, Json.texts] using hps
      exact encode_isSome_of_ascii (ascii_of_isHash hhex)
  · exact htexts s (mem_texts_dict.mpr ⟨p, List.mem_filter.mpr ⟨hp, by simpa using hkey⟩, hps⟩)

/-- What was read of a line is written as the line. -/
theorem Sealed.recordLine_reread (h : Sealed P record) :
    recordLine P (Ledger.reread P.keySort record) = recordLine P record := by
  obtain ⟨hparsed, -⟩ := h
  have hstable := stable_of_strKeyed P.keySort _ (strKeyed_of_parsed _ hparsed)
  cases hparsed with
  | dict hd _ =>
  rw [recordLine, ← (reread_spec (S := P.keySort) hd).1, toJson_reload P.keySort hstable]
  rfl

theorem rewritten_reread (h : ∀ r ∈ records, Sealed P r) :
    rewritten P (records.map (reread P.keySort)) = rewritten P records := by
  rw [rewritten, rewritten, List.flatMap_map]
  exact List.flatMap_congr fun r hr => by rw [(h r hr).recordLine_reread]

/-- What was read has the links of what was written. -/
theorem tip_reread {g : PyVal × Int} (h : ∀ r ∈ records, Sealed P r) :
    tip mark g (records.map (reread P.keySort)) = tip mark g records := by
  rcases List.eq_nil_or_concat records with rfl | ⟨rs, r, rfl⟩
  · rfl
  · rw [List.concat_eq_append, List.map_append, List.map_singleton, tip_concat, tip_concat]
    exact (h r (by simp)).marks.1

/-- **The records of a segment in the format of an append are a segment.** -/
theorem segment_rewritten (T : V2Texts) (hsealed : ∀ r ∈ records, Sealed P r)
    (hlinked : Linked prevMark mark (.str initial, 0) records) :
    ∃ data' lines', encode (rewritten P records) = some data' ∧ Closed data' ∧
      Segment P T initial data' lines' (records.map (reread P.keySort)) := by
  induction records using List.reverseRecOn with
  | nil => exact ⟨[], [], rfl, closed_nil, segment_nil initial⟩
  | append_singleton rs r ih =>
    obtain ⟨hrs, hlast⟩ := (linked_concat _ _ _ _ _).mp hlinked
    obtain ⟨hall, hr⟩ := List.forall_mem_append.mp hsealed
    have hr : Sealed P r := hr r (List.mem_singleton_self r)
    obtain ⟨data', lines', hencode, hclosed, hseg⟩ := ih hall hrs
    obtain ⟨b, hb⟩ := hr.encode_recordLine
    have hline := encode_append hb (show encode [10] = some [10] from rfl)
    obtain ⟨hseg', hclosed'⟩ :=
      hseg.extend_line hclosed hr (by rw [tip_reread hall]; exact hlast) hline
    refine ⟨_, _, ?_, hclosed', by rwa [List.map_append, List.map_singleton]⟩
    rw [rewritten, List.flatMap_append, List.flatMap_singleton]
    exact encode_append hencode hline

/-- A file with a byte in it has a record in it. -/
theorem records_ne_nil (hseg : Segment P T initial data lines records) (hne : data ≠ []) :
    records ≠ [] := by
  rintro rfl
  obtain ⟨hsplit, hread, -, -⟩ := hseg
  obtain ⟨text, htext, hlines⟩ := textLines_eq_ok.mp hsplit
  cases lines with
  | cons line lines =>
    obtain ⟨record, -, hread⟩ := bind_eq_ok.mp hread
    obtain ⟨records, -, hread⟩ := bind_eq_ok.mp hread
    cases hread
  | nil =>
    obtain rfl : text = [] := by
      cases text with
      | nil => rfl
      | cons c text =>
        by_cases hc : c = 13
        · simp [universalNewlines, newlinesAfter, hc, fileLines] at hlines
        · simp only [universalNewlines, newlinesAfter, hc, Bool.false_eq_true, false_and, if_false,
            fileLines] at hlines
          split_ifs at hlines
          cases hrest : fileLines (newlinesAfter false text) with
          | nil => simp [hrest, consLine] at hlines
          | cons l ls => simp [hrest, consLine] at hlines
    exact hne (Option.some.inj ((encode_decode htext).symm.trans rfl))

end

/-- **A file that verifies still does when its records are written anew** in the format of an
append: the count and the link to the next record are the same, and to write it once more changes
nothing. -/
theorem rewrite_law (P : Platform) (T : V2Texts) (exc : PyError → Str) (initial : Str)
    (data : Bytes) (count : Nat)
    (h : SegmentValid P T exc initial data count) : ∃ records data' records',
    segmentRecords T data = .ok records ∧
      encode (rewritten P records) = some data' ∧ SegmentValid P T exc initial data' count ∧
      segmentRecords T data' = .ok records' ∧ nextLink initial records' = nextLink initial records ∧
      encode (rewritten P records') = some data' := by
  obtain ⟨hne, hinitial, lines, records, hseg, rfl⟩ := segmentValid_iff.mp h
  obtain ⟨data', lines', hencode, -, hseg'⟩ := segment_rewritten T hseg.sealed hseg.linked
  have hdata' : data' ≠ [] := by
    rintro rfl
    have hnil : rewritten P records = [] := encode_injective hencode rfl
    cases records with
    | nil => exact records_ne_nil hseg hne rfl
    | cons r rs => simp [rewritten] at hnil
  refine ⟨records, data', _, hseg.records, hencode, ?_, hseg'.records,
    ?_, by rwa [rewritten_reread hseg.sealed]⟩
  · exact segmentValid_iff.mpr ⟨hdata', hinitial, lines', _, hseg', List.length_map _⟩
  · obtain ⟨p, hnext, htip⟩ := nextLink_spec hseg
    obtain ⟨p', hnext', htip'⟩ := nextLink_spec hseg'
    rw [tip_reread hseg.sealed, List.length_map] at htip'
    rw [hnext, hnext', List.length_map]
    obtain ⟨hp, -⟩ := Prod.mk.inj (htip.symm.trans htip')
    rw [hp]

/-- One append, written anew. -/
theorem rewrite_law_once : ∃ records data', segmentRecords sampleTexts
      (segmentAppend counting sampleTexts genesisHash ⟨lit "x", none⟩ [] plainCall).2 =
      .ok records ∧
    encode (rewritten counting records) = some data' ∧
        SegmentValid counting sampleTexts (fun _ => []) genesisHash data' 1 := by
  have hinitial : isHash (.str genesisHash) = true := by decide
  have hempty : Segment counting sampleTexts genesisHash [] [] [] := segment_nil genesisHash
  obtain ⟨record, line, hline⟩ := newLine_plainCall counting_width hinitial hempty
  obtain ⟨hseg, -⟩ := newLine_spec counting_width hempty closed_nil distinct_plainCall hline
  have hne := line_ne_nil counting_width hempty distinct_plainCall hline
  have hdata : (segmentAppend counting sampleTexts genesisHash ⟨lit "x", none⟩ [] plainCall).2 =
      [] ++ line := by
    rw [segmentAppend, hline]
  rw [hdata]
  obtain ⟨records, data', -, hrecords, hencode, hvalid, -⟩ :=
    rewrite_law counting sampleTexts (fun _ => []) genesisHash ([] ++ line) 1
    (segmentValid_iff.mpr ⟨by simpa using hne, hinitial, _, _, hseg, rfl⟩)
  exact ⟨records, data', hrecords, hencode, hvalid⟩

end Ledger
