import Msb.Ledger.NotaryGuard
import Msb.Ledger.NotaryHistory

/-!
# The lines of the notary log

What `notarize` writes for an entry, and what the readers of the log and of the remote make of it:
the line reads as one value, the value is written again as the same line, and it is accepted where
the entry is.

* `readLocalEntries_lines` — the log of some entries reads as their values
* `verifyEntry_reload` — the value of an accepted entry is accepted
-/

namespace Ledger

open Py HashChain

/-! ## Entries with their time -/

/-- What one call of `notarize` notes: the time, the anchor and the proof. -/
structure Noted where
  now : UtcTime
  doc : AnchorDoc
  proof : Option StampProof

namespace Noted

def entry (n : Noted) : NotaryEntry :=
  ⟨n.now.isoformat, n.doc, n.proof.map StampProof.toTimestampProof⟩

/-- What is written to the log. -/
def dict (n : Noted) : PyVal := entryDict ⟨n.now.isoformat, n.doc, none⟩ n.proof

variable (P : Platform)

/-- What is read from the log. -/
def value (n : Noted) : PyVal := reload P.keySort n.dict

def text (n : Noted) : Str := render compactStyle (toJson P.keySort true n.dict)

def line (n : Noted) : Bytes := (encode (n.text P ++ [10])).getD []

end Noted

/-- The name of the object of an entry. -/
def Noted.name (s : Nat) (n : Noted) : Str := entryName s n.now.isoformat

/-- Every text in the entry is read as it was written. -/
structure Noted.Clean (P : Platform) (n : Noted) : Prop where
  doc : (toJson P.keySort true n.doc.dict).Unpaired
  proof : ∀ p, n.proof = some p → (toJson P.keySort true p.dict).Unpaired

/-- The bytes of a log of entries. -/
def logBytes (P : Platform) (ns : List Noted) : Bytes := ns.flatMap fun n => n.line P

variable {P : Platform} {C : Crypto}

/-! ## Characters -/

theorem stampChar_zeroPad (w n : Nat) : ∀ c ∈ zeroPad w n, isStampChar c = true := by
  obtain ⟨ds, hds, hlt, -⟩ := zeroPad_digits w n
  rw [hds]
  intro c hc
  obtain ⟨d, hd, rfl⟩ := List.mem_map.mp hc
  have hd := hlt d hd
  interval_cases d <;> rfl

/-- A time is written in digits, `T` and separators. -/
theorem stampChar_isoformat (t : UtcTime) : ∀ c ∈ t.isoformat, isStampChar c = true := by
  have hlit : ∀ s : Str, s.all isStampChar = true → ∀ c ∈ s, isStampChar c = true := fun s h =>
    List.all_eq_true.mp h
  unfold UtcTime.isoformat
  simp only [List.forall_mem_append]
  refine ⟨⟨⟨⟨⟨⟨⟨⟨⟨⟨⟨⟨stampChar_zeroPad _ _, hlit _ rfl⟩, stampChar_zeroPad _ _⟩, hlit _ rfl⟩,
    stampChar_zeroPad _ _⟩, hlit _ rfl⟩, stampChar_zeroPad _ _⟩, hlit _ rfl⟩,
    stampChar_zeroPad _ _⟩,
    hlit _ rfl⟩, stampChar_zeroPad _ _⟩, ?_⟩, hlit _ rfl⟩
  split
  · simp
  · simp only [List.forall_mem_append]
    exact ⟨hlit _ rfl, stampChar_zeroPad _ _⟩

theorem lt_of_stampChar {c : CodePoint} (h : isStampChar c = true) : 43 ≤ c.val ∧ c.val < 128 := by
  simp only [isStampChar, decide_eq_true_eq] at h
  rcases h with h | rfl | rfl | rfl | rfl | rfl | rfl
  · omega
  all_goals decide

theorem unpaired_isoformat (t : UtcTime) : Unpaired t.isoformat :=
  unpaired_of_ascii fun c hc => (lt_of_stampChar (stampChar_isoformat t c hc)).2

theorem unpaired_hex (b : Bytes) : Unpaired (hex b) := unpaired_of_scalar (scalar?_hex b)

/-- A literal key of the source has no surrogates. -/
theorem unpaired_key {s : String} (h : (lit s).all (fun c => c.val < 128) = true) :
    Unpaired (keyText (.str (lit s))) :=
  unpaired_of_ascii fun c hc => by simpa using List.all_eq_true.mp h c hc

/-- The text of an entry has neither control characters nor anything above ASCII. -/
theorem text_chars (n : Noted) : ∀ c ∈ n.text P, 32 ≤ c.val ∧ c.val < 128 := fun c hc =>
  ⟨noControl_render (by simp [compactStyle]) (by simp [compactStyle]) _ c hc,
    ascii_render compactStyle rfl _ c hc⟩

theorem not_isLineEnd_of_chars {c : CodePoint} (h : 32 ≤ c.val ∧ c.val < 128) :
    isLineEnd c = false := by
  simp only [isLineEnd, decide_eq_false_iff_not]
  omega

/-- A text opens with a brace, so it is not blank. -/
theorem strip_text (n : Noted) : strip (n.text P) ≠ [] := by
  have hbrace : (123 : CodePoint) ∈ n.text P := by
    have h : ∀ kvs, (123 : CodePoint) ∈ render compactStyle (.obj kvs) := by
      intro kvs
      cases kvs with
      | nil => simp [render]
      | cons p kvs => simp [render]
    exact h _
  exact strip_ne_nil hbrace (by decide)

theorem encode_line (n : Noted) : encode (n.text P ++ [10]) = some (n.line P) := by
  obtain ⟨data, -, hdata⟩ := exists_line (P := P) (sortable_entryDict
    ⟨n.now.isoformat, n.doc, none⟩ n.proof)
  have hdata : encode (n.text P ++ [10]) = some data := encodeE_eq_ok.mp hdata
  rw [Noted.line, hdata, Option.getD_some]

/-! ## Reading a line -/

variable {n : Noted} {chain : Chain} {items : List (PyKey × PyVal)}

theorem unpaired_dict_noted (h : n.Clean P) : (toJson P.keySort true n.dict).Unpaired := by
  refine unpaired_dict fun p hp => ?_
  simp only [List.mem_append, List.mem_cons, List.mem_nil_iff, or_false, Option.mem_toList,
    Option.map_eq_some_iff] at hp
  rcases hp with (rfl | rfl) | ⟨proof, hproof, rfl⟩
  · exact ⟨unpaired_key rfl, unpaired_isoformat n.now⟩
  · exact ⟨unpaired_key rfl, h.doc⟩
  · exact ⟨unpaired_key rfl, h.proof proof hproof⟩

/-- A line reads as the value of its entry, with its newline or without. -/
theorem loads_text (h : n.Clean P) {ws : Str} (hws : ∀ c ∈ ws, isWs c = true) :
    loads (n.text P ++ ws) = .ok (n.value P) :=
  loads_render (fun _ => unpaired_dict_noted h) hws

theorem parseLines_texts {ns : List Noted} (h : ∀ n ∈ ns, n.Clean P) (k : Nat) :
    parseLines k (ns.map fun n => n.text P) = .ok (ns.map fun n => n.value P) := by
  induction ns generalizing k with
  | nil => rfl
  | cons n ns ih =>
    have hnil : ∀ c ∈ ([] : Str), isWs c = true := by simp
    have hn := loads_text (h n List.mem_cons_self) hnil
    rw [List.append_nil] at hn
    rw [List.map_cons, parseLines, hn, ih fun m hm => h m (List.mem_cons_of_mem _ hm)]
    rfl

theorem encode_lines (ns : List Noted) :
    encode ((ns.map fun n => n.text P).flatMap (· ++ [10])) = some (logBytes P ns) := by
  induction ns with
  | nil => rfl
  | cons n ns ih =>
    rw [List.map_cons, List.flatMap_cons, encode_append (encode_line n) ih]
    rfl

/-- The line with its newline reads as the value, too. -/
theorem loads_line (h : n.Clean P) : loads (n.text P ++ [10]) = .ok (n.value P) :=
  loads_text h (by simp [isWs])

/-- **The log of some entries reads as their values.** -/
theorem readLocalEntries_lines {log : Option Bytes} {ns : List Noted}
    (hlog : log.getD [] = logBytes P ns) (h : ∀ n ∈ ns, n.Clean P) :
    readLocalEntries log = .ok (ns.map fun n => n.value P) := by
  cases log with
  | none =>
    cases ns with
    | nil => rfl
    | cons n ns =>
      -- a missing log is empty, and a line is not
      have hline := encode_line (P := P) n
      have hnil : n.line P = [] := by
        have : [] = n.line P ++ logBytes P ns := hlog
        exact (List.append_eq_nil_iff.mp this.symm).1
      rw [hnil] at hline
      have hempty := encode_injective hline (show encode [] = some [] by rfl)
      simp at hempty
  | some data =>
    obtain rfl : data = logBytes P ns := hlog
    have hends : ∀ l ∈ ns.map (fun n => n.text P), ∀ c ∈ l, isLineEnd c = false := by
      rw [List.forall_mem_map]
      exact fun n _ c hc => not_isLineEnd_of_chars (text_chars n c hc)
    have hsplit := splitlines_lines hends
    have hblank : (ns.map fun n => n.text P).filter (fun line => strip line ≠ [])
        = ns.map fun n => n.text P := by
      rw [List.filter_eq_self, List.forall_mem_map]
      exact fun n _ => by simpa using strip_text n
    rw [readLocalEntries, decode_encode (encode_lines ns)]
    simp only [hsplit, hblank]
    exact parseLines_texts h 0

/-- `rclone cat` is documented to print the object, which the service reads as text. -/
def SinkCall.Reads (call : SinkCall) (name : Str) (remote : Remote) : Prop :=
  match call with
  | .file result => result = .ok ()
  | .command ending => ∀ data text, remote.get name = some data → decode data = some text →
      ending = .exited 0 (universalNewlines text)

/-- A sink returns the line as it was stored. -/
theorem readSink_line {call : SinkCall} {name : Str} {remote : Remote}
    (hcall : call.Reads name remote) (hget : remote.get name = some (n.line P)) :
    readSink call name remote = .ok (some (n.line P)) := by
  cases call with
  | file result =>
    obtain rfl : result = .ok () := hcall
    rw [readSink, hget]
  | command ending =>
    obtain rfl := hcall _ _ hget (decode_encode (encode_line n))
    have hplain : universalNewlines (n.text P ++ [10]) = n.text P ++ [10] := by
      refine universalNewlines_of_not_mem fun hmem => ?_
      rcases List.mem_append.mp hmem with hmem | hmem
      · exact absurd (text_chars n 13 hmem).1 (by decide)
      · simp at hmem
    simp only [readSink, ne_eq, not_true, if_false, hplain]
    rw [encodeE_eq_ok.mpr (encode_line n)]
    rfl

/-! ## Entries that read as they were written -/

theorem unpaired_merkleRoot {hashes : List Str} {root : Str} (h : merkleRoot P hashes = .ok root) :
    Unpaired root := by
  obtain ⟨leaves, -, h⟩ := bind_eq_ok.mp h
  split at h
  · obtain rfl := Except.ok.inj h
    exact unpaired_of_ascii fun c hc => by rw [List.eq_of_mem_replicate hc]; decide
  · obtain rfl := Except.ok.inj h
    exact unpaired_hex _

/-- The tip of a readable chain is a digest, or the genesis value. -/
theorem unpaired_hashTip {rows : List AuditRow} (h : ∀ r ∈ rows, Readable P r) :
    Unpaired (hashTip rows) := by
  rcases tip_mem AuditRow.recordHash genesisHash rows with ⟨htip, -⟩ | ⟨r, hr, htip⟩
  · rw [hashTip, htip]
    exact unpaired_of_ascii fun c hc => by rw [List.eq_of_mem_replicate hc]; decide
  · obtain ⟨b, hb⟩ := (h r hr).digest
    rw [hashTip, ← htip, hb]
    exact unpaired_hex _

/-- The name of an algorithm that a signature holds under. -/
theorem unpaired_algorithm {a : KeyAlgorithm} {message signature pub : Bytes}
    (h : verifySignature C message signature pub a = .ok true) : Unpaired a.text := by
  have hlit : ∀ s : String, (lit s).all (fun c => c.val < 128) = true → Unpaired (lit s) :=
    fun s hs => unpaired_key hs
  cases a with
  | other name => cases h
  | ed25519 => exact hlit "ed25519" rfl
  | secp256r1 => exact hlit "secp256r1" rfl
  | secp384r1 => exact hlit "secp384r1" rfl

/-- **A signed anchor reads as it was written**, where the path of the database does. -/
theorem unpaired_signedDoc {b : SigningBackend} (hb : Honest C b) {rows : List AuditRow}
    (hread : chain.read = .ok rows) (hrows : ∀ r ∈ rows, Readable P r)
    (hpath : Unpaired chain.dbPath) {now : UtcTime} {doc : AnchorDoc}
    (h : (ChainAnchor.signing b).signedDoc P chain now.isoformat = .ok doc) :
    (toJson P.keySort true doc.dict).Unpaired := by
  obtain ⟨canonical, signature, hsnap, -, hsig, hdoc⟩ := signedDoc_eq_ok.mp h
  obtain ⟨m, hm, hsnap⟩ := snapshot_eq_ok.mp hsnap
  obtain ⟨-, x, root, -, hroot, rfl⟩ := (mark_eq_ok hread).mp hm
  have hsnapshot : (toJson P.keySort true doc.snapshot.dict).Unpaired := by
    rw [hsnap]
    refine unpaired_dict fun p hp => ?_
    simp only [Option.map_some, Option.toList_some, List.cons_append, List.nil_append,
      List.mem_cons, List.mem_nil_iff, or_false] at hp
    rcases hp with rfl | rfl | rfl | rfl | rfl | rfl | rfl | rfl
    · exact ⟨unpaired_key rfl, trivial⟩
    · exact ⟨unpaired_key rfl, hpath⟩
    · exact ⟨unpaired_key rfl, trivial⟩
    · exact ⟨unpaired_key rfl, trivial⟩
    · exact ⟨unpaired_key rfl, unpaired_hashTip hrows⟩
    · exact ⟨unpaired_key rfl, unpaired_merkleRoot hroot⟩
    · exact ⟨unpaired_key rfl, unpaired_hex _⟩
    · exact ⟨unpaired_key rfl, unpaired_isoformat now⟩
  rw [hdoc]
  refine unpaired_dict fun p hp => ?_
  simp only [Option.map_some, Option.toList_some, List.cons_append, List.nil_append, List.mem_cons,
    List.mem_nil_iff, or_false] at hp
  rcases hp with rfl | rfl | rfl | rfl
  · exact ⟨unpaired_key rfl, hsnapshot⟩
  · exact ⟨unpaired_key rfl, unpaired_hex _⟩
  · exact ⟨unpaired_key rfl, unpaired_hex _⟩
  · exact ⟨unpaired_key rfl, unpaired_algorithm (hb.verifies hsig)⟩

/-! ## Items of a value that was read -/

/-- A key of a dict with distinct text keys is found after the reload, with its value reloaded. -/
theorem exists_reload (hd : StrDict items) :
    ∃ items', reload P.keySort (.dict items) = .dict items' ∧
      items'.Perm (items.map fun p => (p.1, reload P.keySort p.2)) ∧
      ∀ key, getItem items' key = (getItem items key).map (reload P.keySort) := by
  obtain ⟨items', heq, hd', hperm⟩ := reload_dict P.keySort hd
  refine ⟨items', heq, hperm, fun key => ?_⟩
  rw [getItem, find_key_perm hperm hd'.nodup, getItem, List.find?_map]
  simp only [Function.comp_def, Option.map_map]

theorem strDict_of_keys (hstr : items.all (fun p => p.1.isStr) = true)
    (hnd : (items.map Prod.fst).Nodup) : StrDict items :=
  ⟨fun p hp => List.all_eq_true.mp hstr p hp, hnd⟩

/-! ## Accepted values -/

/-- The items of `AnchorDoc.dict`. -/
theorem anchorDict_items (d : AnchorDoc) : ∃ items, d.dict = .dict items ∧ StrDict items ∧
    getItem items (lit "snapshot") = some d.snapshot.dict ∧
    getItem items (lit "signature") = some (.str d.signature) ∧
    getItem items (lit "public_key") = some (.str d.publicKey) ∧
    getItem items (lit "key_algorithm") = d.keyAlgorithm.map fun a => .str a.text := by
  refine ⟨_, rfl, strDict_of_keys ?_ ?_, rfl, rfl, rfl, ?_⟩
  · cases d.keyAlgorithm <;> rfl
  · cases d.keyAlgorithm with
    | none => exact of_decide_eq_true rfl
    | some a => exact of_decide_eq_true rfl
  · cases d.keyAlgorithm <;> rfl

/-- The items of `Snapshot.dict`. -/
theorem snapshotDict_items (s : Snapshot) : ∃ items, s.dict = .dict items ∧ StrDict items ∧
    getItem items (lit "tip_hash") = some (.str s.tipHash) ∧
    getItem items (lit "record_count") = some (.int s.recordCount) := by
  refine ⟨_, rfl, strDict_of_keys ?_ ?_, rfl, rfl⟩
  · cases s.merkleRoot <;> rfl
  · cases s.merkleRoot with
    | none => exact of_decide_eq_true rfl
    | some root => exact of_decide_eq_true rfl

/-- The items of `StampProof.dict`. -/
theorem stampDict_items (p : StampProof) : ∃ items, p.dict = .dict items ∧ StrDict items ∧
    getItem items (lit "source") = some (.str p.source) ∧
    getItem items (lit "digest_sha256") = some (.str p.digestSha256) ∧
    getItem items (lit "verified") = some (.bool p.verified) :=
  ⟨_, rfl, strDict_of_keys rfl (of_decide_eq_true rfl), rfl, rfl, rfl⟩

theorem strKeyed_snapshot (s : Snapshot) : strKeyed s.dict = true := by
  cases h : s.merkleRoot <;> simp only [Snapshot.dict, h] <;> rfl

theorem strKeyed_anchorDict (d : AnchorDoc) : strKeyed d.dict = true := by
  have hsnap := strKeyed_snapshot d.snapshot
  cases h : d.keyAlgorithm with
  | none =>
    simp only [AnchorDoc.dict, h, strKeyed, strKeyedItems_eq]
    simp [hsnap, strKeyed, PyKey.isStr]
    decide
  | some a =>
    simp only [AnchorDoc.dict, h, strKeyed, strKeyedItems_eq]
    simp [hsnap, strKeyed, PyKey.isStr]
    decide

/-- What a tree is written as determines the canonical bytes. -/
theorem canonicalBytes_congr {v w : PyVal} (hv : sortable v = true) (hw : sortable w = true)
    (h : toJson P.keySort true v = toJson P.keySort true w) :
    canonicalBytes P v = canonicalBytes P w := by
  simp [canonicalBytes, dumps, hv, hw, h]

/-- A value that was read is encoded as before. -/
theorem canonicalBytes_reload {v : PyVal} (hv : sortable v = true) (hkeys : strKeyed v = true) :
    canonicalBytes P (reload P.keySort v) = canonicalBytes P v :=
  canonicalBytes_congr (sortable_of_parsed _ (parsed_ofJson _)) hv
    (toJson_reload _ (stable_of_strKeyed _ v hkeys))

/-- The algorithm that a valid signature was checked under is one of the three known ones, and is
read as it was written. -/
theorem algorithmField_text {a : KeyAlgorithm} {message signature pub : Bytes}
    (h : verifySignature C message signature pub a = .ok true) :
    algorithmField (some (.str a.text)) = a := by
  cases a with
  | other name => cases h
  | ed25519 => rfl
  | secp256r1 => rfl
  | secp384r1 => rfl

/-- What makes `checkEntry` accept an entry. -/
theorem checkEntry_valid {verifier : ChainAnchor} {anchor : List (PyKey × PyVal)} {snapshot : PyVal}
    {store : AnchorStore} {signature pub canonical : Bytes} {reg : KeyRegistry}
    {records : List AuditRecord} {tip : Str} {count : Option PyVal}
    (hsig : hexField (getItem anchor (lit "signature")) = .ok signature)
    (hpub : hexField (getItem anchor (lit "public_key")) = .ok pub)
    (hreg : verifier.readRegistry store = .ok reg) (hkey : reg.isRegistered pub = true)
    (hcan : canonicalBytes P snapshot = .ok canonical)
    (hverify : verifySignature C canonical signature pub
      (algorithmField (getItem anchor (lit "key_algorithm"))) = .ok true)
    (htip : pyGet snapshot (lit "tip_hash") = .ok (some (.str tip)))
    (hrecords : chain.getChain = .ok records)
    (hany : (records.any fun r => r.recordHash = tip) = true)
    (hcount : pyGet snapshot (lit "record_count") = .ok count)
    (hstamp : ∃ w, checkStamp P items (.str tip) count = .ok w ∧ w.isValid = true) :
    ∃ w, verifier.checkEntry P C items anchor snapshot chain store = .ok w ∧ w.isValid = true := by
  obtain ⟨w, hw, hvalid⟩ := hstamp
  refine ⟨w, ?_, hvalid⟩
  have htexts : (records.any fun r => isText (.str tip) r.recordHash) = true := by
    rw [← hany]
    exact congrArg records.any (funext fun r => by simp [isText, eq_comm])
  unfold ChainAnchor.checkEntry
  simp only [hsig, hpub, hreg, hkey, hcan, hverify, htip, hrecords, hcount, bind, Except.bind,
    Option.getD_some, htexts, Bool.not_true, Bool.false_eq_true, if_false]
  exact hw

/-- The items that `n.dict` is made of. -/
theorem noted_items (n : Noted) : ∃ items, n.dict = .dict items ∧ StrDict items ∧
    getItem items (lit "anchor") = some n.doc.dict ∧
    getItem items (lit "notarized_at") = some (.str n.now.isoformat) ∧
    getItem items (lit "timestamp") = n.proof.map StampProof.dict ∧
    PyVal.dict (items.filter fun p => p.1 ≠ .str (lit "timestamp")) = n.entry.stampedDict := by
  refine ⟨_, rfl, strDict_of_keys ?_ ?_, rfl, rfl, ?_, ?_⟩
  · cases n.proof <;> rfl
  · cases n.proof with
    | none => exact of_decide_eq_true rfl
    | some p => exact of_decide_eq_true rfl
  · cases n.proof <;> rfl
  · cases n.proof <;> rfl

theorem strDict_filter (h : StrDict items) (q : PyKey × PyVal → Bool) : StrDict (items.filter q) :=
  ⟨fun p hp => h.str p (List.mem_filter.mp hp).1, h.nodup.sublist (List.filter_sublist.map _)⟩

/-- The entry without its proof is encoded as it was when it was stamped. -/
theorem stamped_reload {items' : List (PyKey × PyVal)} {v : PyVal} (hd : StrDict items)
    (hperm : items'.Perm (items.map fun p => (p.1, reload P.keySort p.2)))
    (hv : PyVal.dict (items.filter fun p => p.1 ≠ .str (lit "timestamp")) = v)
    (hsort : sortable v = true) (hkeys : strKeyed v = true) :
    canonicalBytes P (.dict (items'.filter fun p => p.1 ≠ .str (lit "timestamp")))
      = canonicalBytes P v := by
  have hd' : StrDict (items.filter fun p => p.1 ≠ .str (lit "timestamp")) := strDict_filter hd _
  have hperm' : (items'.filter fun p => p.1 ≠ .str (lit "timestamp")).Perm
      ((items.filter fun p => p.1 ≠ .str (lit "timestamp")).map
        fun p => (p.1, reload P.keySort p.2)) := by
    have h := hperm.filter fun p => decide (p.1 ≠ .str (lit "timestamp"))
    rwa [List.filter_map] at h
  have hstable : ∀ p ∈ items.filter (fun p => p.1 ≠ .str (lit "timestamp")),
      Stable P.keySort p.2 := by
    intro p hp
    rw [← hv, strKeyed, strKeyedItems_eq] at hkeys
    simp only [Bool.and_eq_true, List.all_eq_true] at hkeys
    exact stable_of_strKeyed _ _ (hkeys.2 p hp)
  have hkeys' : ∀ p ∈ items'.filter (fun p => p.1 ≠ .str (lit "timestamp")), p.1.isStr = true := by
    intro p hp
    obtain ⟨q, hq, rfl⟩ := List.mem_map.mp (hperm'.mem_iff.mp hp)
    exact hd'.str q hq
  refine canonicalBytes_congr ?_ hsort ?_
  · rw [sortable, sortableItems_eq, Bool.and_eq_true, List.all_eq_true]
    refine ⟨comparable_str hkeys', fun p hp => ?_⟩
    obtain ⟨q, -, rfl⟩ := List.mem_map.mp (hperm'.mem_iff.mp hp)
    exact sortable_of_parsed _ (parsed_ofJson _)
  · rw [toJson_of_perm_reload P.keySort hd' hstable hperm', hv]

theorem strKeyed_stampedDict (e : NotaryEntry) : strKeyed e.stampedDict = true := by
  have hanchor := strKeyed_anchorDict e.anchor
  simp only [NotaryEntry.stampedDict, strKeyed, strKeyedItems_eq]
  simp [hanchor, strKeyed, PyKey.isStr]
  decide

/-- The proof of a noted entry passes after the reload. -/
theorem checkStamp_reload (hstamp : n.entry.Stamped P) {items' : List (PyKey × PyVal)}
    (hd : StrDict items) (hperm : items'.Perm (items.map fun p => (p.1, reload P.keySort p.2)))
    (hts : getItem items' (lit "timestamp") = n.proof.map fun p => reload P.keySort p.dict)
    (hstamped : PyVal.dict (items.filter fun p => p.1 ≠ .str (lit "timestamp")) =
      n.entry.stampedDict)
    (tip : PyVal) (count : Option PyVal) :
    ∃ w, checkStamp P items' tip count = .ok w ∧ w.isValid = true := by
  unfold checkStamp
  rw [hts]
  cases hproof : n.proof with
  | none => exact ⟨_, rfl, rfl⟩
  | some p =>
    obtain ⟨ts, hdict, hdict_str, hsource, hdigest, hverified⟩ := stampDict_items p
    obtain ⟨ts', hts', -, hget⟩ := exists_reload (P := P) hdict_str
    rw [Option.map_some, hdict, hts']
    simp only [hget, hsource, hdigest, hverified, Option.map_some]
    by_cases hempty : p.digestSha256 = []
    · rw [hempty]
      exact ⟨_, rfl, rfl⟩
    · have hfilter : (some (reload P.keySort (.str p.digestSha256))).filter truthy
          = some (.str p.digestSha256) := by
        rw [Option.filter_some, if_pos]
        · rfl
        · simpa [reload, toJson, ofJson, truthy] using hempty
      obtain ⟨stamped, hcan, hcovers, hrfc⟩ := hstamp p.toTimestampProof
        (by rw [Noted.entry, hproof]; rfl) hempty
      simp only [hfilter, stamped_reload hd hperm hstamped (sortable_entryDict n.entry none)
        (strKeyed_stampedDict _), hcan, bind, Except.bind]
      rw [if_neg (by simp [isText, hcovers]), if_neg]
      · exact ⟨_, rfl, rfl⟩
      · rintro ⟨htext, hnot⟩
        have hsrc : p.source = lit "rfc3161" := by
          simpa [reload, toJson, ofJson, isText] using htext
        have hver := hrfc hsrc
        simp [reload, toJson, ofJson, truthy, hver] at hnot

/-- **The value of an accepted entry is accepted.** -/
theorem verifyEntry_reload {verifier : ChainAnchor} {store : AnchorStore}
    (h : ∃ v, verifier.verifyNotaryEntry P C n.entry chain store = .ok v ∧ v.isValid = true) :
    ∃ w, verifier.verifyEntry P C (n.value P) chain store = .ok w ∧ w.isValid = true := by
  obtain ⟨signature, pub, reg, canonical, records, hsig, hpub, hreg, hkey, hcan, hverify, hrecords,
    hany, hstamp⟩ := verifyNotaryEntry_isValid.mp h
  obtain ⟨items, hdict, hitems, hanchor, -, hts, hstamped⟩ := noted_items n
  obtain ⟨items', hvalue, hperm, hget⟩ := exists_reload (P := P) hitems
  obtain ⟨anchor, hadict, hastr, hsnap, hasig, hapub, hakey⟩ := anchorDict_items n.doc
  obtain ⟨anchor', havalue, -, haget⟩ := exists_reload (P := P) hastr
  obtain ⟨snap, hsdict, hsstr, htip, hcount⟩ := snapshotDict_items n.doc.snapshot
  obtain ⟨snap', hsvalue, -, hsget⟩ := exists_reload (P := P) hsstr
  have hanchor' : getItem items' (lit "anchor") = some (.dict anchor') := by
    rw [hget, hanchor, hadict, Option.map_some, havalue]
  have hsnap' : getItem anchor' (lit "snapshot") = some (.dict snap') := by
    rw [haget, hsnap, hsdict, Option.map_some, hsvalue]
  unfold ChainAnchor.verifyEntry Noted.value
  simp only [hdict, hvalue, hanchor', hsnap']
  have hasig' : hexField (getItem anchor' (lit "signature")) = .ok signature := by
    rw [haget, hasig]
    exact hsig
  have hapub' : hexField (getItem anchor' (lit "public_key")) = .ok pub := by
    rw [haget, hapub]
    exact hpub
  have htip' : pyGet (.dict snap') (lit "tip_hash") = .ok (some (.str n.doc.snapshot.tipHash)) := by
    have h := hsget (lit "tip_hash")
    rw [htip] at h
    exact congrArg Except.ok h
  have hcount' : pyGet (.dict snap') (lit "record_count")
      = .ok (some (.int n.doc.snapshot.recordCount)) := by
    have h := hsget (lit "record_count")
    rw [hcount] at h
    exact congrArg Except.ok h
  have hcan' : canonicalBytes P (.dict snap') = .ok canonical := by
    rw [← hsvalue, ← hsdict, canonicalBytes_reload (sortable_snapshot _) (strKeyed_snapshot _)]
    exact hcan
  -- every field that the check reads is the one that was written
  refine checkEntry_valid hasig' hapub' hreg hkey hcan' ?_ htip' hrecords hany
    hcount' ?_
  · rw [haget, hakey]
    cases hrecorded : n.doc.keyAlgorithm with
    | none =>
      have hverify : verifySignature C canonical signature pub
        (n.doc.keyAlgorithm.getD .ed25519) = .ok true := hverify
      rw [hrecorded] at hverify
      exact hverify
    | some a =>
      have hverify : verifySignature C canonical signature pub
        (n.doc.keyAlgorithm.getD .ed25519) = .ok true := hverify
      rw [hrecorded] at hverify
      rw [← algorithmField_text hverify] at hverify
      exact hverify
  · refine checkStamp_reload hstamp hitems hperm ?_ hstamped _ _
    rw [hget, hts, Option.map_map]
    rfl

end Ledger
