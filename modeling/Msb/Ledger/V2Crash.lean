import Msb.Infra.Run
import Msb.Ledger.V2Append

/-!
# A torn append

A crash leaves the first bytes of a line at the end of a segment. What the next append does is
decided by the reader: it either refuses the last line, and then every append raises for ever, or it
reads a line that no newline ends, and then the next record is written on the same line, which
nobody can read.

* `torn_unreadable` — the first bytes of a line, one at least and the whole text excepted, are not
  read
* `open_unreadable` — a line that is not ended, and a record behind it, are not read
* `crash_law` — where later appends are safe
-/

namespace Ledger

open Py HashChain

/-! ## Later appends -/

/-- An append that nothing interrupts. -/
structure WholeAppend where
  recordedAt : Str
  call : SegmentCall
  distinct : call.Distinct

section

variable (P : Platform) (T : V2Texts) (initial : Str)

/-- What the append returns or raises, and the file it leaves. -/
def WholeAppend.run (a : WholeAppend) (data : Bytes) : Except PyError V2Record × Bytes :=
  segmentAppend P T initial ⟨a.recordedAt, none⟩ data a.call

/-- The file after an append. -/
def wholeStep (data : Bytes) (a : WholeAppend) : Option Bytes := some (a.run P T initial data).2

/-- The append raises and leaves the file, or returns and leaves a valid one. -/
def Recovers (exc : PyError → Str) (data : Bytes) (a : WholeAppend) : Prop :=
  (∃ e, (a.run P T initial data).1 = .error e ∧ (a.run P T initial data).2 = data) ∨
    (∃ record, (a.run P T initial data).1 = .ok record) ∧ ∃ count, SegmentValid P T exc initial
    (a.run P T initial data).2 count

end

section

variable {P : Platform} {T : V2Texts} {initial : Str} {exc : PyError → Str} {data : Bytes}
  {lines : List Str} {records : List V2Record}

/-- An append does nothing to a file that it cannot read. -/
theorem run_unreadable {e : PyError} (h : segmentRecords T data = .error e) (a : WholeAppend) :
    a.run P T initial data = (.error e, data) := by
  simp only [WholeAppend.run, segmentAppend, newLine, newRecord, h, bind, Except.bind]

/-- **A file that cannot be read stays as it is.** -/
theorem safe_of_unreadable {e : PyError} (h : segmentRecords T data = .error e)
    (later : List WholeAppend) :
    Machine.Along (wholeStep P T initial) (Recovers P T initial exc) data later := by
  refine Machine.along_of_invariant (I := fun file => file = data) ?_ ?_ rfl
  · rintro _ a _ rfl hstep
    rw [wholeStep, run_unreadable h a] at hstep
    exact (Option.some.inj hstep).symm
  · rintro _ a rfl
    exact .inl ⟨e, by rw [run_unreadable h a], by rw [run_unreadable h a]⟩

/-- What an append does to a segment whose last line is ended. -/
theorem run_closed (hwidth : ∀ b, (P.sha256 b).length = 32)
    (hseg : Segment P T initial data lines records) (hclosed : Closed data)
    (a : WholeAppend) : (∃ ls rs, Segment P T initial (a.run P T initial data).2 ls rs) ∧
    Closed (a.run P T initial data).2 ∧ ((∃ e, a.run P T initial data = (.error e, data)) ∨
        (∃ record, (a.run P T initial data).1 = .ok record) ∧ (a.run P T initial data).2 ≠ []) := by
  rcases segmentAppend_eq with ⟨e, he⟩ | ⟨record, line, hline, happ⟩
  · have hrun : a.run P T initial data = (.error e, data) := he
    rw [hrun]
    exact ⟨⟨lines, records, hseg⟩, hclosed, .inl ⟨e, rfl⟩⟩
  · have hrun : a.run P T initial data = (.ok record, data ++ line) := happ
    obtain ⟨hseg', hclosed'⟩ := newLine_spec hwidth hseg hclosed a.distinct hline
    have hne := line_ne_nil hwidth hseg a.distinct hline
    rw [hrun]
    exact ⟨⟨_, _, hseg'⟩, hclosed',
      .inr ⟨⟨record, rfl⟩, fun h => hne (List.append_eq_nil_iff.mp h).2⟩⟩

/-- **A segment whose last line is ended is safe.** -/
theorem safe_of_closed (hwidth : ∀ b, (P.sha256 b).length = 32)
    (hinitial : isHash (.str initial) = true)
    (hseg : Segment P T initial data lines records) (hclosed : Closed data)
    (later : List WholeAppend) :
    Machine.Along (wholeStep P T initial) (Recovers P T initial exc) data later := by
  refine Machine.along_of_invariant (I := fun file => (∃ ls rs, Segment P T initial file ls rs) ∧
    Closed file) ?_ ?_ ⟨⟨lines, records, hseg⟩, hclosed⟩
  · rintro file a file' ⟨⟨ls, rs, h⟩, hc⟩ hstep
    obtain ⟨hseg', hclosed', -⟩ := run_closed hwidth h hc a
    obtain rfl := Option.some.inj hstep
    exact ⟨hseg', hclosed'⟩
  · rintro file a ⟨⟨ls, rs, h⟩, hc⟩
    obtain ⟨⟨ls', rs', hseg'⟩, -, hanswer⟩ := run_closed hwidth h hc a
    rcases hanswer with ⟨e, he⟩ | ⟨hok, hne⟩
    · exact .inl ⟨e, by rw [he], by rw [he]⟩
    · exact .inr ⟨hok, _, segmentValid_iff.mpr ⟨hne, hinitial, ls', rs', hseg', rfl⟩⟩

/-! ## Lines that are not read -/

theorem jsonlRecord_unparsed {line : Str} (h : parse line = none) (n : Nat) :
    ∃ e, jsonlRecord T n line = .error e := by
  rw [jsonlRecord, loadsStrict, h]
  by_cases hblank : strip line = []
  · exact ⟨_, by rw [raiseIf, if_pos hblank]; rfl⟩
  · exact ⟨_, by rw [raiseIf, if_neg hblank]; rfl⟩

/-- A line that is not read, behind lines that are. -/
theorem records_unreadable {front : List Str} {line : Str} (hne : data ≠ [])
    (hread : ∃ rs, jsonlRecords T 1 front = .ok rs)
    (hsplit : textLines data = .ok (front ++ [line])) (hline : parse line = none) :
    ∃ e, segmentRecords T data = .error e := by
  obtain ⟨rs, hrs⟩ := hread
  obtain ⟨e, he⟩ := jsonlRecord_unparsed (T := T) hline (1 + front.length)
  refine ⟨e, ?_⟩
  rw [segmentRecords, if_neg hne, iterJsonl, hsplit]
  show jsonlRecords T 1 (front ++ [line]) = _
  rw [jsonlRecords_append hrs, jsonlRecords, he]
  rfl

theorem textLines_of_segment (hseg : Segment P T initial data lines records) :
    ∃ text, decode data = some text ∧ fileLines (universalNewlines text) = lines :=
    textLines_eq_ok.mp hseg.split

/-- The lines of a file whose last line is not ended. -/
theorem exists_open {text : Str} (hopen : ¬Ended (universalNewlines text)) :
    ∃ front back, universalNewlines text = front ++ back ∧ Ended front ∧ 10 ∉ back ∧ back ≠ [] := by
  obtain ⟨front, back, heq, hfront, hback⟩ := exists_ended (universalNewlines text)
  refine ⟨front, back, heq, hfront, hback, ?_⟩
  rintro rfl
  rw [heq, List.append_nil] at hopen
  exact hopen hfront

theorem jsonlRecords_prefix {ls ms : List Str} {n : Nat} {xs : List V2Record}
    (h : jsonlRecords T n (ls ++ ms) = .ok xs) :
    ∃ ys zs, jsonlRecords T n ls = .ok ys ∧ jsonlRecords T (n + ls.length) ms = .ok zs := by
  induction ls generalizing n xs with
  | nil => exact ⟨[], xs, rfl, h⟩
  | cons l ls ih =>
    obtain ⟨x, hx, h⟩ := bind_eq_ok.mp h
    obtain ⟨rest, hrest, -⟩ := bind_eq_ok.mp h
    obtain ⟨ys, zs, hys, hzs⟩ := ih hrest
    refine ⟨x :: ys, zs, ?_, by rwa [List.length_cons, ← Nat.add_assoc, Nat.add_right_comm]⟩
    simp only [jsonlRecords, hx, hys, bind, Except.bind]

variable {record : V2Record} {line : Bytes} {k : Nat}

/-- A line that is read starts with a brace, white space before it or not. -/
theorem parse_of_jsonlRecord {n : Nat} {line : Str} (h : jsonlRecord T n line = .ok record) :
    ∃ kvs, parse line = some (.obj kvs) := by
  simp only [jsonlRecord, bind_eq_ok, raiseIf_eq_ok] at h
  obtain ⟨-, -, h⟩ := h
  rw [loadsStrict] at h
  cases hparse : parse line with
  | none => simp [hparse] at h
  | some j =>
    cases hkey : duplicateKey? j with
    | some key =>
      rw [hparse] at h
      simp [hkey, verificationError] at h
    | none =>
      rw [hparse] at h
      cases j with
      | obj kvs => exact ⟨kvs, rfl⟩
      | _ => simp [hkey, ofJson] at h

/-- **A record behind a line that is not ended is not read**, nor is a part of it. -/
theorem open_unreadable (hseg : Segment P T initial data lines records) (hopen : ¬Closed data)
    {rest ws : Str} {b : Bytes}
    (hlf : 10 ∉ rest) (hcr : 13 ∉ rest) (hws : ws = [] ∨ ws = [10])
    (hb : encode (123 :: rest ++ ws) = some b) :
    ∃ e, segmentRecords T (data ++ b) = .error e := by
  obtain ⟨text, htext, hlines⟩ := textLines_of_segment hseg
  obtain ⟨front, back, heq, hfront, hback, hne⟩ := exists_open fun h => hopen ⟨text, htext, h⟩
  -- the last line is an object
  rw [heq, fileLines_ended hfront, fileLines_open hback hne] at hlines
  have hread := hseg.read
  rw [← hlines] at hread
  obtain ⟨ys, zs, hys, hzs⟩ := jsonlRecords_prefix hread
  obtain ⟨record, hrecord, -⟩ := bind_eq_ok.mp hzs
  obtain ⟨kvs, hparse⟩ := parse_of_jsonlRecord hrecord
  have hmore : parse (back ++ (123 :: rest ++ ws)) = none := by
    rw [parse_append hparse, if_neg]
    rw [List.cons_append, skipWs_of_head (by decide)]
    simp
  have hlf' : 10 ∉ back ++ 123 :: rest := by
    simp only [List.mem_append, List.mem_cons, not_or]
    exact ⟨hback, by decide, hlf⟩
  have hlast : fileLines (back ++ (123 :: rest ++ ws)) = [back ++ (123 :: rest ++ ws)] := by
    rw [← List.append_assoc]
    rcases hws with rfl | rfl
    · rw [List.append_nil]
      exact fileLines_open hlf' (by simp)
    · exact fileLines_closed hlf'
  have hcr' : 13 ∉ 123 :: rest ++ ws := by
    simp only [List.cons_append, List.mem_cons, List.mem_append, not_or]
    refine ⟨by decide, hcr, ?_⟩
    rcases hws with rfl | rfl <;> decide
  have hsplit := textLines_append htext hb (by simp) hcr'
  rw [heq, List.append_assoc, fileLines_ended hfront, hlast] at hsplit
  refine records_unreadable (fun hnil => ?_) ⟨ys, hys⟩ hsplit hmore
  obtain ⟨rfl, -⟩ := List.append_eq_nil_iff.mp hnil
  exact hopen closed_nil

theorem not_mem_text {s : Str} (hs : recordLine P record = 123 :: s) {c : CodePoint}
    (hc : c.val < 32) : c ∉ s :=
  fun h => not_mem_recordLine hc (by rw [hs]; exact List.mem_cons_of_mem _ h)

/-- **An append to a segment whose last line is not ended** returns, and leaves a file that is not
valid. -/
theorem not_recovers_of_open (hwidth : ∀ b, (P.sha256 b).length = 32)
    (hinitial : isHash (.str initial) = true)
    (hseg : Segment P T initial data lines records) (hopen : ¬Closed data) :
    ¬Recovers P T initial exc data ⟨lit "x", plainCall, distinct_plainCall⟩ := by
  obtain ⟨record, line, hline⟩ := newLine_plainCall hwidth hinitial hseg
  have hrun : WholeAppend.run P T initial ⟨lit "x", plainCall, distinct_plainCall⟩ data =
      (.ok record, data ++ line) := by
    rw [WholeAppend.run, segmentAppend, hline]
  obtain ⟨s, hs⟩ := braces_recordLine P record
  have hencode := ((newLine_iff hwidth hseg distinct_plainCall).mp hline).2
  rw [hs] at hencode
  obtain ⟨e, he⟩ :=
    open_unreadable hseg hopen (not_mem_text hs (by decide)) (not_mem_text hs (by decide))
    (.inr rfl) hencode
  rw [Recovers, hrun]
  rintro (⟨e', h, -⟩ | ⟨-, count, hvalid⟩)
  · cases h
  · obtain ⟨-, -, ls, rs, hseg', -⟩ := segmentValid_iff.mp hvalid
    rw [hseg'.records] at he
    cases he

/-- What the text of a file is that a part of a line was written to. -/
theorem exists_torn {text s t : Str} {torn : Bytes} (htext : decode data = some text)
    (hline : encode s = some line) (htorn : torn <+: line) (ht : decode (data ++ torn) = some t) :
    ∃ u, t = text ++ u ∧ encode u = some torn ∧ u <+: s := by
  have hwhole := encode_decode ht
  obtain ⟨u, rfl⟩ : text <+: t :=
    prefix_of_encode (encode_decode htext) hwhole (List.prefix_append _ _)
  obtain ⟨b, hb⟩ : ∃ b, encode u = some b :=
    Option.isSome_iff_exists.mp (encode_append_isSome.mp (by rw [hwhole]; rfl)).2
  obtain rfl : b = torn :=
    List.append_cancel_left
    (Option.some.inj ((encode_append (encode_decode htext) hb).symm.trans hwhole))
  exact ⟨u, rfl, hb, prefix_of_encode hb hline htorn⟩

/-- The part is a part of the text, all of it only where nothing but the newline is missing. -/
theorem exists_part {text t : Str} (htext : decode data = some text)
    (hline : encode (recordLine P record ++ [10]) = some line) (h0 : k ≠ 0) (hk : k < line.length)
    (ht : decode (data ++ line.take k) = some t) : ∃ v q, t = text ++ 123 :: v ∧
      encode (123 :: v) = some (line.take k) ∧
      123 :: v ++ q = recordLine P record ∧ (q = [] → k + 1 = line.length) := by
  obtain ⟨u, rfl, hu, rest, hrest⟩ := exists_torn htext hline (List.take_prefix k line) ht
  have hlength : (line.take k).length = k := by
    rw [List.length_take]
    omega
  obtain ⟨q, hq, hqnil⟩ : ∃ q, u ++ q = recordLine P record ∧ (q = [] → k + 1 = line.length) := by
    rcases List.eq_nil_or_concat rest with rfl | ⟨q, c, rfl⟩
    · rw [List.append_nil] at hrest
      rw [hrest, hline] at hu
      rw [← Option.some.inj hu] at hlength
      exact absurd hlength.symm (Nat.ne_of_lt hk)
    · rw [List.concat_eq_append, ← List.append_assoc] at hrest
      obtain ⟨hq, -⟩ := List.append_inj' hrest rfl
      refine ⟨q, hq, ?_⟩
      rintro rfl
      rw [List.append_nil] at hq
      rw [← hq] at hline
      have hwhole := congrArg List.length (Option.some.inj
        ((encode_append hu (show encode [10] = some [10] from rfl)).symm.trans hline))
      rwa [List.length_append, hlength] at hwhole
  obtain ⟨s, hs⟩ := braces_recordLine P record
  cases u with
  | nil =>
    have hnil : [] = line.take k :=
      Option.some.inj ((show encode [] = some [] from rfl).symm.trans hu)
    rw [← hnil] at hlength
    exact absurd hlength.symm h0
  | cons c v =>
    obtain rfl : c = 123 := by
      rw [hs, List.cons_append, List.cons_append] at hq
      exact (List.cons.inj hq).1
    exact ⟨v, q, rfl, hu, hq, hqnil⟩

/-- **A part of a line is not read**, where it is neither empty nor the whole text. -/
theorem torn_unreadable (hseg : Segment P T initial data lines records) (hclosed : Closed data)
    (hline : encode (recordLine P record ++ [10]) = some line) (h0 : k ≠ 0) (hk : k < line.length)
    (htext : k + 1 ≠ line.length) : ∃ e, segmentRecords T (data ++ line.take k) = .error e := by
  have hne : data ++ line.take k ≠ [] := by
    rw [ne_eq, List.append_eq_nil_iff, List.take_eq_nil_iff]
    rintro ⟨-, h | h⟩
    · exact h0 h
    · simp [h] at hk
  obtain ⟨text, hdecode, hended⟩ := hclosed
  cases ht : decode (data ++ line.take k) with
  | none =>
    refine ⟨unicodeDecodeError, ?_⟩
    rw [segmentRecords, if_neg hne, iterJsonl, textLines, ht]
    rfl
  | some t =>
    obtain ⟨v, q, rfl, hu, hq, hqnil⟩ := exists_part hdecode hline h0 hk ht
    have hqne : q ≠ [] := fun h => htext (hqnil h)
    have hnot : ∀ c : CodePoint, c.val < 32 → c ∉ 123 :: v := fun c hc h =>
      @not_mem_recordLine P record c hc (hq ▸ List.mem_append_left q h)
    -- the last brace is not in the file
    have hunparsed : parse (123 :: v) = none := by
      cases hparse : parse (123 :: v) with
      | none => rfl
      | some j =>
        have hmore :=
          parse_append_closed (q := q) hparse ⟨123, v, skipWs_of_head rfl v, .inr (.inr rfl)⟩
        have hlast : 125 ∈ q := by
          obtain ⟨s, hs⟩ := braces_recordLine P record
          have hend := congrArg List.getLast? hq
          rw [hs, List.getLast?_append_of_ne_nil _ hqne, List.getLast?_concat] at hend
          exact List.mem_of_getLast? hend
        have hskip : skipWs q ≠ [] :=
          fun h => absurd (forall_isWs_of_skipWs h 125 hlast) (by decide)
        rw [hq, recordLine, parse_render plainStyle rfl, if_neg hskip] at hmore
        cases hmore
    have hsplit := textLines_append hdecode hu (by simp) (hnot 13 (by decide))
    rw [fileLines_ended hended, fileLines_open (hnot 10 (by decide)) (by simp)] at hsplit
    obtain ⟨text', hdecode', hlines⟩ := textLines_of_segment hseg
    obtain rfl : text = text' := Option.some.inj (hdecode.symm.trans hdecode')
    rw [hlines] at hsplit
    exact records_unreadable hne ⟨records, hseg.read⟩ hsplit hunparsed

/-- The same behind a line that is not ended, where the part may be the whole text. -/
theorem torn_open_unreadable (hseg : Segment P T initial data lines records) (hopen : ¬Closed data)
    (hline : encode (recordLine P record ++ [10]) = some line) (h0 : k ≠ 0) (hk : k < line.length) :
    ∃ e, segmentRecords T (data ++ line.take k) = .error e := by
  obtain ⟨text, hdecode, -⟩ := textLines_of_segment hseg
  cases ht : decode (data ++ line.take k) with
  | none =>
    have hne : data ++ line.take k ≠ [] :=
      fun h => hopen ((List.append_eq_nil_iff.mp h).1 ▸ closed_nil)
    refine ⟨unicodeDecodeError, ?_⟩
    rw [segmentRecords, if_neg hne, iterJsonl, textLines, ht]
    rfl
  | some t =>
    obtain ⟨v, q, rfl, hu, hq, -⟩ := exists_part hdecode hline h0 hk ht
    have hnot : ∀ c : CodePoint, c.val < 32 → c ∉ v := fun c hc h =>
      @not_mem_recordLine P record c hc (hq ▸ List.mem_append_left q (List.mem_cons_of_mem _ h))
    exact open_unreadable hseg hopen (hnot 10 (by decide)) (hnot 13 (by decide)) (.inl rfl)
      (by rwa [List.append_nil])

/-- The whole text of a line, without its newline. -/
theorem take_text (hline : encode (recordLine P record ++ [10]) = some line)
    (hk : k + 1 = line.length) : encode (recordLine P record) = some (line.take k) := by
  obtain ⟨b, hb⟩ : ∃ b, encode (recordLine P record) = some b :=
    Option.isSome_iff_exists.mp (encode_append_isSome.mp (by rw [hline]; rfl)).1
  have hwhole : b ++ [10] = line :=
    Option.some.inj ((encode_append hb (show encode [10] = some [10] from rfl)).symm.trans hline)
  have hlength : b.length = k := by
    have := congrArg List.length hwhole
    simp only [List.length_append, List.length_singleton] at this
    omega
  rw [hb, ← hwhole, List.take_left' hlength]

/-- **The whole text of a line without its newline** is read, and the line stays open. -/
theorem segment_text (hwidth : ∀ b, (P.sha256 b).length = 32) {recordedAt : Str}
    {call : SegmentCall} (hseg : Segment P T initial data lines records) (hclosed : Closed data)
    (hcall : call.Distinct) (hline : newLine P T initial recordedAt data call = .ok (record, line))
    (hk : k + 1 = line.length) :
    Segment P T initial (data ++ line.take k) (lines ++ [recordLine P record])
      (records ++ [reread P.keySort record]) ∧ ¬Closed (data ++ line.take k) := by
  obtain ⟨hrecord, hencode⟩ := (newLine_iff hwidth hseg hcall).mp hline
  obtain ⟨hsealed, hprev, -⟩ := newRecord_spec hwidth hseg hcall hrecord
  have htake := take_text hencode hk
  obtain ⟨s, hs⟩ := braces_recordLine P record
  obtain ⟨text, htext, hended⟩ := hclosed
  have hfirst : ∀ c ∈ (recordLine P record).head?, c ≠ 10 := by
    rw [hs]
    simp
  have hcr : 13 ∉ recordLine P record := not_mem_recordLine (by decide)
  have hsplit := textLines_append htext htake hfirst hcr
  obtain ⟨text', htext', hlines⟩ := textLines_of_segment hseg
  obtain rfl : text = text' := Option.some.inj (htext.symm.trans htext')
  rw [fileLines_ended hended, hlines, fileLines_open (not_mem_recordLine (by decide))
    (by rw [hs]; simp)] at hsplit
  refine ⟨hseg.extend hsealed hprev hsplit fun n => ?_, ?_⟩
  · have hread : jsonlRecord T n (recordLine P record ++ []) = .ok (reread P.keySort record) :=
      jsonlRecord_recordLine hsealed.parsed n (by simp)
    rwa [List.append_nil] at hread
  · rintro ⟨t, ht, hend⟩
    obtain rfl : text ++ recordLine P record = t :=
      Option.some.inj ((decode_append htext htake).symm.trans ht)
    rw [universalNewlines_append hfirst, universalNewlines_of_not_mem hcr, hs] at hend
    rcases hend with h | h
    · simp at h
    · rw [← List.append_assoc, List.getLast?_concat] at h
      exact absurd (Option.some.inj h) (by decide)

end

/-! ## The law of a torn append -/

/-- **After a crash that leaves the first `k` bytes of a line**, all later appends raise and change
nothing, or return and leave a valid segment, exactly where the file before ended in a line end and
the newline is not all that is missing, or it did not end in one and at least one byte was written.
-/
theorem crash_law {P : Platform} (hwidth : ∀ b, (P.sha256 b).length = 32) (T : V2Texts)
    (exc : PyError → Str) (initial : Str)
    (data : Bytes) (hdata : data = [] ∨ ∃ count, SegmentValid P T exc initial data count)
    (torn : WholeAppend) (record : V2Record)
    (line : Bytes) (hline : newLine P T initial torn.recordedAt data torn.call = .ok (record, line))
      (k : Nat) (hk : k < line.length) :
    (∀ later, Machine.Along (wholeStep P T initial) (Recovers P T initial exc)
      (data ++ line.take k) later) ↔
      (Closed data ∧ k + 1 ≠ line.length) ∨ (¬Closed data ∧ k ≠ 0) := by
  obtain ⟨lines, records, hseg⟩ : ∃ lines records, Segment P T initial data lines records := by
    rcases hdata with rfl | ⟨count, hvalid⟩
    · exact ⟨[], [], segment_nil initial⟩
    · obtain ⟨-, -, lines, records, hseg, -⟩ := segmentValid_iff.mp hvalid
      exact ⟨lines, records, hseg⟩
  obtain ⟨hrecord, hencode⟩ := (newLine_iff hwidth hseg torn.distinct).mp hline
  obtain ⟨hsealed, hprev, -⟩ := newRecord_spec hwidth hseg torn.distinct hrecord
  have hinitial : isHash (.str initial) = true := by
    rcases hdata with rfl | ⟨count, hvalid⟩
    · -- the first record is linked to it
      obtain rfl : [] = records :=
        Except.ok.inj ((segment_nil (P := P) (T := T) initial).records.symm.trans hseg.records)
      have hlink : field record "prev_hash" = .str initial := (Prod.mk.inj hprev).1
      rw [← hlink]
      exact hsealed.shaped.prevHash
    · exact (segmentValid_iff.mp hvalid).2.1
  have hunsafe : ∀ {file ls rs}, Segment P T initial file ls rs → ¬Closed file →
      ¬∀ later, Machine.Along (wholeStep P T initial) (Recovers P T initial exc) file later :=
    fun hfile hopen h => not_recovers_of_open hwidth hinitial hfile hopen
      (h [⟨lit "x", plainCall, distinct_plainCall⟩]).1
  by_cases hclosed : Closed data
  · rw [or_iff_left fun h => h.1 hclosed, and_iff_right hclosed]
    constructor
    · intro h hk'
      obtain ⟨hfile, hopen⟩ := segment_text hwidth hseg hclosed torn.distinct hline hk'
      exact hunsafe hfile hopen h
    · intro hk' later
      rcases Nat.eq_zero_or_pos k with rfl | hpos
      · rw [List.take_zero, List.append_nil]
        exact safe_of_closed hwidth hinitial hseg hclosed later
      · obtain ⟨e, he⟩ := torn_unreadable hseg hclosed hencode (Nat.ne_of_gt hpos) hk hk'
        exact safe_of_unreadable he later
  · rw [or_iff_right fun h => hclosed h.1, and_iff_right hclosed]
    constructor
    · rintro h rfl
      rw [List.take_zero, List.append_nil] at h
      exact hunsafe hseg hclosed h
    · intro h0 later
      obtain ⟨e, he⟩ := torn_open_unreadable hseg hclosed hencode h0 hk
      exact safe_of_unreadable he later

/-- The first line of a file, without its newline. -/
theorem crash_law_text : ∃ record line, newLine counting sampleTexts genesisHash (lit "x")
    [] plainCall = .ok (record, line) ∧
    ¬∀ later, Machine.Along (wholeStep counting sampleTexts genesisHash)
      (Recovers counting sampleTexts genesisHash fun _ => []) ([] ++ line.take (line.length - 1))
      later := by
  have hseg : Segment counting sampleTexts genesisHash [] [] [] := segment_nil genesisHash
  obtain ⟨record, line, hline⟩ :=
    newLine_plainCall counting_width (show isHash (.str genesisHash) = true by decide) hseg
  refine ⟨record, line, hline, fun h => ?_⟩
  have hpos := List.length_pos_iff.mpr (line_ne_nil counting_width hseg distinct_plainCall hline)
  have hlaw := crash_law counting_width sampleTexts (fun _ => []) genesisHash [] (.inl rfl)
    ⟨lit "x", plainCall, distinct_plainCall⟩ record line hline (line.length - 1) (by omega)
  rcases hlaw.mp h with ⟨-, h⟩ | ⟨h, -⟩
  · omega
  · exact h closed_nil

/-- Two appends, and a crash takes the newline of the second: the next append returns, and the file
is not valid any more. -/
theorem crash_unverifiable : ∃ record line,
    SegmentValid counting sampleTexts (fun _ => []) genesisHash
      (segmentAppend counting sampleTexts genesisHash ⟨lit "x", none⟩ [] plainCall).2 1 ∧
    newLine counting sampleTexts genesisHash (lit "x")
      (segmentAppend counting sampleTexts genesisHash ⟨lit "x", none⟩ [] plainCall).2 plainCall =
      .ok (record, line) ∧
    ¬Recovers counting sampleTexts genesisHash (fun _ => [])
      ((segmentAppend counting sampleTexts genesisHash ⟨lit "x", none⟩ [] plainCall).2 ++ line.take
        (line.length - 1))
      ⟨lit "x", plainCall, distinct_plainCall⟩ := by
  have hinitial : isHash (.str genesisHash) = true := by decide
  have hempty : Segment counting sampleTexts genesisHash [] [] [] := segment_nil genesisHash
  obtain ⟨first, line₁, hline₁⟩ := newLine_plainCall counting_width hinitial hempty
  obtain ⟨hseg, hclosed⟩ := newLine_spec counting_width hempty closed_nil distinct_plainCall hline₁
  obtain ⟨record, line, hline⟩ := newLine_plainCall counting_width hinitial hseg
  have hdata : (segmentAppend counting sampleTexts genesisHash ⟨lit "x", none⟩ [] plainCall).2 =
      [] ++ line₁ := by
    rw [segmentAppend, hline₁]
  have hne := line_ne_nil counting_width hempty distinct_plainCall hline₁
  have hpos := List.length_pos_iff.mpr (line_ne_nil counting_width hseg distinct_plainCall hline)
  obtain ⟨hfile, hopen⟩ :=
    segment_text (k := line.length - 1) counting_width hseg hclosed distinct_plainCall hline
    (by omega)
  rw [hdata]
  refine ⟨record, line, segmentValid_iff.mpr ⟨by simpa using hne, hinitial, _, _, hseg, rfl⟩,
    hline, ?_⟩
  exact not_recovers_of_open counting_width hinitial hfile hopen

end Ledger
