import Msb.Ledger.NotaryObjects

/-!
# Agreement of the two sides of the notary

A healthy verdict says that both sides have the same numbers and that what was read from the remote
is accepted. It says nothing on whether the remote holds, under a number, the entry of that line of
the local log: an accepted entry of another time does as well.

* `healthy_validated` — what a healthy verdict says
* `not_healthyAgrees` — the two sides may hold different entries under it
-/

namespace Ledger

open Py

variable {P : Platform} {C : Crypto} {D : DigitTable}

section

variable {self : NotaryService} {chain : Chain} {call : VerifyCall} {files : NotaryFiles}

/-- **What a healthy verdict says**: the last local entry is accepted, the remote has the numbers of
the local log and no others, one object of every number is accepted, and so is every object that
shares its number with no other. -/
theorem healthy_validated {health : NotaryHealth}
    (h : self.verify P C D chain call files = .ok health)
    (hverdict : health.verdict = lit "HEALTHY") :
    ∃ entries last head names, readLocalEntries files.localLog = .ok entries ∧
      entries.getLast? = some last ∧
      self.anchor.verifyEntry P C last chain files.store = .ok head ∧ head.isValid = true ∧
      listSink D call.listing files.objects = .ok names ∧
      (∀ s, (∃ name ∈ names, entryNameSeq D name = some s) ↔ 1 ≤ s ∧ s ≤ entries.length) ∧
      (∀ s, 1 ≤ s ∧ s ≤ entries.length → ∃ name ∈ names, entryNameSeq D name = some s ∧
        Validated P C self chain call files name) ∧
      ∀ name ∈ names, ∀ s, entryNameSeq D name = some s →
        (∀ other ∈ names, entryNameSeq D other = some s → other = name) →
        Validated P C self chain call files name := by
  obtain ⟨-, entries, last, head, names, -, hread, hlast, hhead, hvalid, hlist, -, hindex,
      hseqs, -⟩ :=
    verify_healthy_iff.mp ⟨health, h, hverdict⟩
  -- the index holds one listed name for every number
  have hone : ∀ s, 1 ≤ s ∧ s ≤ entries.length → ∃ name ∈ names, entryNameSeq D name = some s ∧
      Validated P C self chain call files name := by
    intro s hs
    obtain ⟨⟨t, name⟩, hmem, rfl⟩ := List.mem_map.mp (keys_remoteIndex.mpr ((hseqs s).mpr hs))
    obtain ⟨hname, hseq⟩ := mem_remoteIndex hmem
    exact ⟨name, hname, hseq, hindex _ hmem⟩
  refine ⟨entries, last, head, names, hread, hlast, hhead, hvalid, hlist, hseqs, hone, ?_⟩
  intro name hname s hs honly
  obtain ⟨other, hother, hseq, hvalidated⟩ := hone s ((hseqs s).mp ⟨name, hname, hs⟩)
  rwa [honly other hother hseq] at hvalidated

end

/-! ### One entry on each side -/

/-- A chain of one record. -/
def oneRowChain : Chain :=
  ⟨[], .ok [⟨1, lit "svc", lit "evt", lit "null", [], genesisHash, Platform.tagged.hexdigest []⟩]⟩

def plainNotary : NotaryService := ⟨.signing (.plain [1]), true⟩

def timeAt (second : Nat) : UtcTime := ⟨2026, 7, 29, 12, 0, second, 0⟩

/-- A call of `verify` in which everything works. -/
def verifyWorks : VerifyCall := ⟨.file (.ok ()), fun _ => .file (.ok ()), .file (.ok ()), none⟩

theorem works_verifyWorks (objects : Remote) : verifyWorks.Works objects :=
  ⟨rfl, fun _ => rfl, rfl⟩

/-- An entry of some second. -/
def notedAt (doc : AnchorDoc) (second : Nat) : Noted := ⟨timeAt second, doc, none⟩

/-- The local log holds the entry of one second, the remote that of another one. -/
def oneEntryEach (doc : AnchorDoc) (here there : Nat) : NotaryFiles where
  store := ⟨some doc, none⟩
  localLog := some (logBytes .tagged [notedAt doc here])
  objects := [objectAt .tagged [notedAt doc there] 1]

theorem readable_oneRow : ∀ r ∈ [(⟨1, lit "svc", lit "evt", lit "null", [], genesisHash,
    Platform.tagged.hexdigest []⟩ : AuditRow)], Readable .tagged r := by
  intro r hr
  rw [List.mem_singleton] at hr
  subst hr
  exact ⟨⟨.none, rfl⟩, [], rfl⟩

/-- The remote has an accepted entry under number 1, whichever it is. -/
theorem oneEntryEach_healthy {doc : AnchorDoc}
    (hdoc : plainNotary.anchor.signedDoc .tagged oneRowChain
    (timeAt 0).isoformat = .ok doc) (here there : Nat) :
    (∀ second, (notedAt doc second).Clean .tagged) ∧
    ∃ health, plainNotary.verify .tagged .plain .asciiOnly oneRowChain verifyWorks
      (oneEntryEach doc here there) = .ok health ∧ health.verdict = lit "HEALTHY" := by
  have hb : Honest .plain (.plain [1]) := honest_plain (by simp)
  have hpath : Unpaired oneRowChain.dbPath := unpaired_of_ascii fun c hc => by cases hc
  have hclean : ∀ second, (notedAt doc second).Clean .tagged := fun second =>
    ⟨unpaired_signedDoc hb rfl readable_oneRow hpath hdoc, fun p hp => by cases hp⟩
  have hcount : doc.snapshot.recordCount ≠ 0 := by
    rw [(snapshotOf_signedDoc rfl hdoc).1.count]
    exact Nat.one_ne_zero
  have haccepted : ∀ second, ∃ v, plainNotary.anchor.verifyNotaryEntry .tagged .plain
      (notedAt doc second).entry oneRowChain ⟨some doc, none⟩ = .ok v ∧ v.isValid = true := by
    intro second
    refine verifyNotaryEntry_valid rfl (fun r hr => (readable_oneRow r hr).parses) rfl
      (soundDoc_of_signedDoc hb rfl hdoc) hcount (stamped_of_plain rfl) fun k hk => ?_
    obtain ⟨_, _, -, -, -, hrec⟩ := signedDoc_eq_ok.mp hdoc
    have hpub : doc.publicKey = hex [1] := by rw [hrec]; rfl
    obtain rfl : [1] = k := hex_injective (hpub.symm.trans hk)
    rfl
  have hstored : Stored .tagged [notedAt doc there] [1] (oneEntryEach doc here there).objects :=
    ⟨rfl, by simp, List.nodup_singleton 1⟩
  have hlog : (oneEntryEach doc here there).localLog.getD [] = logBytes .tagged
    [notedAt doc here] := rfl
  have hlen : [notedAt doc here].length = [notedAt doc there].length := rfl
  refine ⟨hclean, healthy_of_stored rfl (works_verifyWorks _) hlog (by simp) hlen (by norm_num) ?_
    ?_ hstored ?_⟩
  · simp only [List.singleton_append, List.forall_mem_cons]
    exact ⟨hclean here, hclean there, by simp⟩
  · simp only [List.singleton_append, List.forall_mem_cons]
    exact ⟨haccepted here, haccepted there, by simp⟩
  · intro s
    simp only [List.mem_singleton, List.length_singleton]
    omega

theorem exists_oneRowDoc :
    ∃ doc, plainNotary.anchor.signedDoc .tagged oneRowChain (timeAt 0).isoformat = .ok doc :=
  exists_signedDoc (signs_plain [1]) rfl readable_oneRow _

theorem healthy_validated_oneEntryEach : ∃ files health,
    plainNotary.verify .tagged .plain .asciiOnly oneRowChain verifyWorks files = .ok health ∧
    ∃ entries last head names, readLocalEntries files.localLog = .ok entries ∧
      entries.getLast? = some last ∧
      plainNotary.anchor.verifyEntry .tagged .plain last oneRowChain files.store = .ok head ∧
      head.isValid = true ∧ listSink .asciiOnly verifyWorks.listing files.objects = .ok names ∧
      (∀ s, (∃ name ∈ names, entryNameSeq .asciiOnly name = some s) ↔ 1 ≤ s ∧ s ≤ entries.length) ∧
      (∀ s, 1 ≤ s ∧ s ≤ entries.length → ∃ name ∈ names, entryNameSeq .asciiOnly name = some s ∧
        Validated .tagged .plain plainNotary oneRowChain verifyWorks files name) ∧
      ∀ name ∈ names, ∀ s, entryNameSeq .asciiOnly name = some s →
        (∀ other ∈ names, entryNameSeq .asciiOnly other = some s → other = name) →
        Validated .tagged .plain plainNotary oneRowChain verifyWorks files name := by
  obtain ⟨doc, hdoc⟩ := exists_oneRowDoc
  obtain ⟨-, health, hhealth, hverdict⟩ := oneEntryEach_healthy hdoc 1 1
  exact ⟨_, health, hhealth, healthy_validated hhealth hverdict⟩

/-! ## The contents are not compared -/

/-- Every listed object is validated, and holds the local entry of its number. -/
def HealthyAgrees (P : Platform) (C : Crypto) (D : DigitTable) : Prop :=
  ∀ (self : NotaryService) (chain : Chain) (call : VerifyCall) (files : NotaryFiles)
    (health : NotaryHealth), self.verify P C D chain call files = .ok health →
    health.verdict = lit "HEALTHY" →
    ∃ entries names, readLocalEntries files.localLog = .ok entries ∧
      listSink D call.listing files.objects = .ok names ∧
      ∀ name ∈ names, ∀ s, entryNameSeq D name = some s →
        Validated P C self chain call files name ∧
        ∃ data text entry, readSink (call.read name) name files.objects = .ok (some data) ∧
          decode data = some text ∧ loads text = .ok entry ∧ entries[s - 1]? = some entry

/-- The value of an entry tells its time. -/
theorem isoformat_of_value {n m : Noted} (h : n.value P = m.value P) :
    n.now.isoformat = m.now.isoformat := by
  have htime : ∀ k : Noted, ∃ items, k.value P = .dict items ∧
      getItem items (lit "notarized_at") = some (.str k.now.isoformat) := by
    intro k
    obtain ⟨items, hdict, hitems, -, hat, -⟩ := noted_items k
    obtain ⟨items', hvalue, -, hget⟩ := exists_reload (P := P) hitems
    refine ⟨items', by rw [Noted.value, hdict, hvalue], ?_⟩
    rw [hget, hat]
    rfl
  obtain ⟨items, hn, hat⟩ := htime n
  obtain ⟨items', hm, hat'⟩ := htime m
  obtain rfl : items = items' := PyVal.dict.inj (hn.symm.trans (h.trans hm))
  exact PyVal.str.inj (Option.some.inj (hat.symm.trans hat'))

/-- What is read from an object is the value of its entry. -/
theorem loads_object {call : SinkCall} {name : Str} {objects : Remote}
    (hcall : call.Reads name objects) {n : Noted} (hn : n.Clean P)
    (hget : objects.get name = some (n.line P)) {data : Bytes} {text : Str} {entry : PyVal}
    (hdata : readSink call name objects = .ok (some data))
    (htext : decode data = some text) (hentry : loads text = .ok entry) : entry = n.value P := by
  rw [readSink_line hcall hget] at hdata
  obtain rfl := Option.some.inj (Except.ok.inj hdata)
  rw [decode_encode (encode_line n)] at htext
  obtain rfl := Option.some.inj htext
  rw [loads_line hn] at hentry
  exact (Except.ok.inj hentry).symm

/-- The verdict is healthy although the two sides hold entries of different times. -/
theorem not_healthyAgrees : ¬ HealthyAgrees .tagged .plain .asciiOnly := by
  intro hagrees
  obtain ⟨doc, hdoc⟩ := exists_oneRowDoc
  obtain ⟨hclean, health, hhealth, hverdict⟩ := oneEntryEach_healthy hdoc 1 2
  obtain ⟨entries, names, hread, hlist, hnames⟩ := hagrees _ _ _ _ _ hhealth hverdict
  have hstored : Stored .tagged [notedAt doc 2] [1] (oneEntryEach doc 1 2).objects :=
    ⟨rfl, by simp, List.nodup_singleton 1⟩
  -- the one object of the remote is listed under number 1
  obtain ⟨names', hlist', hperm⟩ : ∃ names, listSink .asciiOnly verifyWorks.listing
      (oneEntryEach doc 1 2).objects = .ok names ∧
      names.Perm ([1].map fun s => (objectAt .tagged [notedAt doc 2] s).1) :=
    listSink_stored rfl hstored (by norm_num)
  obtain rfl := Except.ok.inj (hlist.symm.trans hlist')
  have hname : (notedAt doc 2).name 1 ∈ names := hperm.mem_iff.mpr List.mem_cons_self
  obtain ⟨-, data, text, entry, hdata, htext, hentry, hsame⟩ :=
    hnames _ hname 1 (entryNameSeq_name (by norm_num) _)
  -- it holds the entry of second 2
  have hget := hstored.get (by norm_num) (List.mem_singleton_self 1)
  have hcall := (works_verifyWorks (oneEntryEach doc 1 2).objects).read ((notedAt doc 2).name 1)
  have hremote := loads_object hcall (hclean 2) hget hdata htext hentry
  -- the local log holds the entry of second 1
  have hlog : (oneEntryEach doc 1 2).localLog.getD [] = logBytes .tagged [notedAt doc 1] := rfl
  have hlocal := readLocalEntries_lines hlog fun n hn => by
    rw [List.mem_singleton.mp hn]
    exact hclean 1
  rw [Except.ok.inj (hread.symm.trans hlocal), hremote] at hsame
  have htimes : (timeAt 1).isoformat = (timeAt 2).isoformat :=
    isoformat_of_value (n := notedAt doc 1) (m := notedAt doc 2) (Option.some.inj hsame)
  exact absurd htimes (by decide +kernel)

end Ledger
