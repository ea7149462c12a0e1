import Msb.Infra.JsonAscii
import Msb.Ledger.ChainAnchor

/-!
# What an anchor covers

The snapshot of a chain as a function of its rows, what an honestly signed anchor says, and when
`verify` gets past its checks of the key to the live chain.

* `mark_eq_ok` — the mark of a chain, from its rows
* `verify_eq_compareLive` — an own, authorized signature: the verdict is the one on the chain
* `passesChecks_of_verify` — a verdict on the chain has passed every check
-/

namespace Ledger

open Py HashChain

variable {P : Platform} {fromisoformat : IsoParser} {C : Crypto}

/-! ## Records and rows -/

theorem toRecord_eq_ok {row : AuditRow} {record : AuditRecord} :
    row.toRecord = .ok record ↔ ∃ v, loads row.payload = .ok v ∧
      record = ⟨row.seq, row.component, row.eventType, v, row.timestamp, row.prevHash,
        row.recordHash⟩ := by
  rw [AuditRow.toRecord, bind_eq_ok]
  constructor
  · rintro ⟨v, hv, h⟩
    exact ⟨v, hv, (Except.ok.inj h).symm⟩
  · rintro ⟨v, hv, rfl⟩
    exact ⟨v, hv, rfl⟩

variable {rows : List AuditRow} {records : List AuditRecord} {chain : Chain} {b : SigningBackend}
  {doc : AnchorDoc} {self : ChainAnchor} {reg : KeyRegistry} {signature anchorPub : Bytes}

/-- The rows whose payloads parse are the rows that can be read. -/
theorem getChain_isOk :
    (∃ records, getChain rows = .ok records) ↔ ∀ r ∈ rows, ∃ v, loads r.payload = .ok v := by
  simp only [getChain, mapM_eq_ok]
  induction rows with
  | nil => simp
  | cons r rows ih =>
    rw [List.forall_mem_cons, ← ih]
    constructor
    · rintro ⟨_, h⟩
      obtain ⟨record, records, hrec, hrecs, -⟩ := List.forall₂_cons_left_iff.mp h
      obtain ⟨v, hv, -⟩ := toRecord_eq_ok.mp hrec
      exact ⟨⟨v, hv⟩, records, hrecs⟩
    · rintro ⟨⟨v, hv⟩, records, hrecs⟩
      exact ⟨_, .cons (toRecord_eq_ok.mpr ⟨v, hv, rfl⟩) hrecs⟩

/-- A column of the records is the column of the rows. -/
theorem getChain_map {α : Type} {f : AuditRecord → α} {g : AuditRow → α}
    (hfg : ∀ row record, AuditRow.toRecord row = .ok record → f record = g row)
    (h : getChain rows = .ok records) :
    records.map f = rows.map g := by
  replace h := mapM_eq_ok.mp h
  induction h with
  | nil => rfl
  | cons hrec _ ih => rw [List.map_cons, List.map_cons, ih, hfg _ _ hrec]

theorem getChain_hashes (h : getChain rows = .ok records) :
    records.map AuditRecord.recordHash = rows.map AuditRow.recordHash :=
  getChain_map (fun _ _ hrec => by obtain ⟨v, -, rfl⟩ := toRecord_eq_ok.mp hrec; rfl) h

theorem getChain_seqs (h : getChain rows = .ok records) :
    records.map AuditRecord.seq = rows.map AuditRow.seq :=
  getChain_map (fun _ _ hrec => by obtain ⟨v, -, rfl⟩ := toRecord_eq_ok.mp hrec; rfl) h

theorem getChain_timestamps (h : getChain rows = .ok records) :
    records.map AuditRecord.timestamp = rows.map AuditRow.timestamp :=
  getChain_map (fun _ _ hrec => by obtain ⟨v, -, rfl⟩ := toRecord_eq_ok.mp hrec; rfl) h

/-- The membership scan of `verify` is on the hashes. -/
theorem any_recordHash (h : getChain rows = .ok records) (tipHash : Str) :
    (records.any fun r => r.recordHash = tipHash) = true
      ↔ ∃ r ∈ rows, r.recordHash = tipHash := by
  have hmem : tipHash ∈ records.map AuditRecord.recordHash
      ↔ tipHash ∈ rows.map AuditRow.recordHash := by rw [getChain_hashes h]
  simpa [List.any_eq_true, List.mem_map] using hmem

theorem getChain_of_read (h : chain.read = .ok rows) :
    chain.getChain = getChain rows := by
  rw [Chain.getChain, h]

/-! ## The mark -/

abbrev hashTip (rows : List AuditRow) : Str := tip AuditRow.recordHash genesisHash rows

theorem tipMark_eq_ok {m : TipMark} :
    tipMark P records = .ok m ↔ ∃ b root,
      encode (joinLines (records.map AuditRecord.recordHash)) = some b ∧
      merkleRoot P (records.map AuditRecord.recordHash) = .ok root ∧
      m = ⟨((records.map AuditRecord.seq).getLast?).getD 0, records.length,
        ((records.map AuditRecord.recordHash).getLast?).getD genesisHash, root,
        P.hexdigest b⟩ := by
  simp only [tipMark, bind_eq_ok, encodeE_eq_ok, List.getLast?_map, Except.ok.injEq]
  constructor
  · rintro ⟨b, hb, root, hroot, rfl⟩
    exact ⟨b, root, hb, hroot, rfl⟩
  · rintro ⟨b, root, hb, hroot, rfl⟩
    exact ⟨b, hb, root, hroot, rfl⟩

/-- **The mark of a chain, from its rows.** -/
theorem mark_eq_ok (hread : chain.read = .ok rows) {m : TipMark} :
    chain.mark P = .ok m ↔ (∃ records, getChain rows = .ok records) ∧ ∃ b root,
      encode (joinLines (rows.map AuditRow.recordHash)) = some b ∧
      merkleRoot P (rows.map AuditRow.recordHash) = .ok root ∧
      m = ⟨lastSeq rows, rows.length, hashTip rows, root, P.hexdigest b⟩ := by
  have hseq : lastSeq rows = ((rows.map AuditRow.seq).getLast?).getD 0 := by
    unfold lastSeq
    rw [List.getLast?_map]
    cases rows.getLast? <;> rfl
  rw [Chain.mark, getChain_of_read hread, bind_eq_ok, hashTip, tip_eq_getLast?, hseq,
    ← List.getLast?_map]
  constructor
  · rintro ⟨records, hrecs, hm⟩
    obtain ⟨b, root, hb, hroot, rfl⟩ := tipMark_eq_ok.mp hm
    have hlen : records.length = rows.length := (mapM_eq_ok.mp hrecs).length_eq.symm
    rw [getChain_hashes hrecs] at hb hroot ⊢
    rw [getChain_seqs hrecs, hlen]
    exact ⟨⟨records, hrecs⟩, b, root, hb, hroot, rfl⟩
  · rintro ⟨⟨records, hrecs⟩, b, root, hb, hroot, rfl⟩
    have hlen : records.length = rows.length := (mapM_eq_ok.mp hrecs).length_eq.symm
    refine ⟨records, hrecs, tipMark_eq_ok.mpr ⟨b, root, ?_⟩⟩
    rw [getChain_hashes hrecs, getChain_seqs hrecs, hlen]
    exact ⟨hb, hroot, rfl⟩

/-! ### The mark exists -/

theorem mem_joinLines {c : CodePoint} : ∀ {hashes : List Str},
    c ∈ joinLines hashes → c = 10 ∨ ∃ s ∈ hashes, c ∈ s
  | [], h => absurd h List.not_mem_nil
  | [s], h => Or.inr ⟨s, List.mem_singleton_self s, h⟩
  | s :: t :: ss, h => by
    rw [joinLines, List.mem_append, List.mem_cons] at h
    · rcases h with h | rfl | h
      · exact Or.inr ⟨s, List.mem_cons_self, h⟩
      · exact Or.inl rfl
      · rcases mem_joinLines h with rfl | ⟨u, hu, hc⟩
        · exact Or.inl rfl
        · exact Or.inr ⟨u, List.mem_cons_of_mem _ hu, hc⟩
    · simp

theorem encode_hex (b : Bytes) : ∃ x, encode (hex b) = some x := encode_of_scalar (scalar?_hex b)

theorem encode_joinLines {hashes : List Str} (h : ∀ s ∈ hashes, ∃ b, s = hex b) :
    ∃ x, encode (joinLines hashes) = some x := by
  refine encode_of_scalar fun c hc => ?_
  rcases mem_joinLines hc with rfl | ⟨s, hs, hcs⟩
  · rfl
  · obtain ⟨b, rfl⟩ := h s hs
    exact scalar?_hex b c hcs

theorem merkleRoot_hex {hashes : List Str} (h : ∀ s ∈ hashes, ∃ b, s = hex b) :
    ∃ root, merkleRoot P hashes = .ok root := by
  have hleaves : ∃ leaves, hashes.mapM (leafDigest P) = .ok leaves := by
    simp only [mapM_eq_ok]
    induction hashes with
    | nil => exact ⟨[], .nil⟩
    | cons s hashes ih =>
      obtain ⟨leaves, hleaves⟩ := ih fun t ht => h t (List.mem_cons_of_mem _ ht)
      obtain ⟨b, rfl⟩ := h s List.mem_cons_self
      obtain ⟨x, hx⟩ := encode_hex b
      have hleaf : leafDigest P (hex b) = .ok (P.sha256 (0 :: x)) :=
        bind_eq_ok.mpr ⟨x, encodeE_eq_ok.mpr hx, rfl⟩
      exact ⟨_, .cons hleaf hleaves⟩
  obtain ⟨leaves, hleaves⟩ := hleaves
  rw [merkleRoot, hleaves]
  simp only [bind, Except.bind]
  split
  · exact ⟨_, rfl⟩
  · exact ⟨_, rfl⟩

/-- A row that `append` can have written: its payload parses, its hash is a digest. -/
structure Readable (P : Platform) (row : AuditRow) : Prop where
  parses : ∃ v, loads row.payload = .ok v
  digest : ∃ b, row.recordHash = P.hexdigest b

/-- Readable rows have a mark. -/
theorem exists_mark (hread : chain.read = .ok rows) (h : ∀ r ∈ rows, Readable P r) :
    ∃ m, chain.mark P = .ok m := by
  have hhex : ∀ s ∈ rows.map AuditRow.recordHash, ∃ b, s = hex b := by
    intro s hs
    obtain ⟨r, hr, rfl⟩ := List.mem_map.mp hs
    obtain ⟨b, hb⟩ := (h r hr).digest
    exact ⟨_, hb⟩
  obtain ⟨b, hb⟩ := encode_joinLines hhex
  obtain ⟨root, hroot⟩ := merkleRoot_hex (P := P) hhex
  exact ⟨_, (mark_eq_ok hread).mpr
    ⟨getChain_isOk.mpr fun r hr => (h r hr).parses, b, root, hb, hroot, rfl⟩⟩

theorem ValidRows.readable (h : ValidRows P rows) :
    ∀ r ∈ rows, Readable P r := by
  intro r hr
  obtain ⟨v, hv, hhash⟩ := recomputed_eq_ok.mp (h.hashed r hr)
  obtain ⟨-, b, -, hb⟩ := computeHash_eq_ok.mp hhash
  exact ⟨⟨v, hv⟩, b, hb⟩

/-! ## Signed anchors -/

theorem snapshot_eq_ok {now : Str} {snap : Snapshot} :
    snapshot P chain now = .ok snap ↔ ∃ m, chain.mark P = .ok m ∧
      snap = ⟨1, chain.dbPath, m.seq, m.recordCount, m.tipHash, some m.merkleRoot, m.chainSha256,
        now⟩ := by
  simp only [snapshot, bind_eq_ok, Except.ok.injEq]
  exact exists_congr fun m => and_congr_right fun _ => eq_comm

/-- What an honestly signed anchor says. -/
theorem signedDoc_eq_ok {now : Str} :
    (ChainAnchor.signing b).signedDoc P chain now = .ok doc ↔ ∃ canonical signature,
      snapshot P chain now = .ok doc.snapshot ∧
      canonicalBytes P doc.snapshot.dict = .ok canonical ∧ b.sign canonical = .ok signature ∧
      doc = ⟨doc.snapshot, hex signature, hex b.publicKey, some b.algorithm⟩ := by
  simp only [ChainAnchor.signedDoc, bind_eq_ok, Except.ok.injEq]
  constructor
  · rintro ⟨snap, hsnap, canonical, hcan, signature, hsig, rfl⟩
    exact ⟨canonical, signature, hsnap, hcan, hsig, rfl⟩
  · rintro ⟨canonical, signature, hsnap, hcan, hsig, hdoc⟩
    exact ⟨doc.snapshot, hsnap, canonical, hcan, signature, hsig, hdoc.symm⟩

/-- A dict is canonically encoded as long as its keys can be sorted. -/
theorem canonicalBytes_isOk {v : PyVal} :
    (∃ b, canonicalBytes P v = .ok b) ↔ sortable v = true := dumps_encode_isOk rfl

theorem sortable_snapshot (s : Snapshot) : sortable s.dict = true := by
  cases hroot : s.merkleRoot <;>
    simp [Snapshot.dict, hroot, sortable, sortableItems, comparable, PyKey.isStr]

/-- A backend that signs whatever it is given. -/
def SigningBackend.Signs (b : SigningBackend) : Prop :=
  ∀ message, ∃ signature, b.sign message = .ok signature

theorem signs_plain (key : Bytes) : (SigningBackend.plain key).Signs := fun _ => ⟨_, rfl⟩

/-- A readable chain can be anchored. -/
theorem exists_signedDoc (hb : b.Signs) (hread : chain.read = .ok rows)
    (h : ∀ r ∈ rows, Readable P r) (now : Str) :
    ∃ doc, (ChainAnchor.signing b).signedDoc P chain now = .ok doc := by
  obtain ⟨m, hm⟩ := exists_mark hread h
  obtain ⟨canonical, hcan⟩ := canonicalBytes_isOk (P := P).mpr (sortable_snapshot
    ⟨1, chain.dbPath, m.seq, m.recordCount, m.tipHash, some m.merkleRoot, m.chainSha256, now⟩)
  obtain ⟨signature, hsig⟩ := hb canonical
  exact ⟨⟨_, hex signature, hex b.publicKey, some b.algorithm⟩, signedDoc_eq_ok.mpr
    ⟨canonical, signature, snapshot_eq_ok.mpr ⟨m, hm, rfl⟩, hcan, hsig, rfl⟩⟩

/-! ## The checks before the chain -/

theorem isCurrent_iff {r : KeyRegistry} {k : Bytes} :
    r.isCurrent k = true ↔ r.currentPublicKey ≠ [] ∧ k = r.currentPublicKey := by
  simp [KeyRegistry.isCurrent]

theorem isRecovery_iff {r : KeyRegistry} {k : Bytes} :
    r.isRecovery k = true ↔ k ≠ [] ∧ r.recoveryPublicKey = some k := by
  unfold KeyRegistry.isRecovery
  rcases r.recoveryPublicKey with _ | p
  · simp
  · simp only [Option.any_some, Bool.and_eq_true, decide_eq_true_eq, Option.some.injEq, ne_eq,
      decide_not, Bool.not_eq_true', decide_eq_false_iff_not]
    constructor
    · rintro ⟨hne, rfl⟩
      exact ⟨hne, rfl⟩
    · rintro ⟨hne, rfl⟩
      exact ⟨hne, rfl⟩

/-- The key counts as authorized for this verifier: it is the current key or the recovery key, and
is not revoked. -/
structure Authorized (reg : KeyRegistry) (k : Bytes) : Prop where
  registered : reg.isCurrent k = true ∨ reg.isRecovery k = true
  unrevoked : reg.isRevoked k = false

/-- The checks of the key and the signature that `verify` makes before it reads the chain. -/
structure PassesChecks (P : Platform) (C : Crypto) (verifier : ChainAnchor) (reg : KeyRegistry)
    (doc : AnchorDoc) (signature anchorPub : Bytes) : Prop where
  authorized : Authorized reg anchorPub
  own : anchorPub = verifier.pub ∨ reg.isRecovery anchorPub = true
  algorithm : doc.recordedAlgorithm = verifier.algorithm ∨
    some doc.recordedAlgorithm = reg.recoveryAlgorithm
  signature : verifier.checkSignature P C doc.snapshot signature = .ok true

/-- The checks pass exactly so. -/
theorem checkAnchor_eq_none :
    self.checkAnchor P C reg doc signature anchorPub = .ok none
      ↔ PassesChecks P C self reg doc signature anchorPub := by
  unfold ChainAnchor.checkAnchor
  constructor
  · intro h
    split at h
    · cases h
    next hauth =>
    split at h
    · cases h
    next hrev =>
    split at h
    · cases h
    next hown =>
    split at h
    · cases h
    next halg =>
    obtain ⟨holds, hholds, h⟩ := bind_eq_ok.mp h
    cases holds with
    | false => cases h
    | true =>
      simp only [Bool.not_eq_true', Bool.not_eq_false, Bool.or_eq_true, not_and_or, not_not,
        Bool.not_eq_true] at hauth hrev hown halg
      exact ⟨⟨hauth, hrev⟩, hown, halg, hholds⟩
  · intro h
    have hauth : (reg.isCurrent anchorPub || reg.isRecovery anchorPub) = true := by
      rw [Bool.or_eq_true]
      exact h.authorized.registered
    have hown : ¬(anchorPub ≠ self.pub ∧ (!reg.isRecovery anchorPub) = true) := by
      rintro ⟨hne, hrec⟩
      rcases h.own with heq | hrec'
      · exact hne heq
      · rw [hrec'] at hrec
        cases hrec
    have halg : ¬(doc.recordedAlgorithm ≠ self.algorithm ∧
        some doc.recordedAlgorithm ≠ reg.recoveryAlgorithm) := by
      rintro ⟨hne, hne'⟩
      rcases h.algorithm with heq | heq
      · exact hne heq
      · exact hne' heq
    rw [hauth, h.authorized.unrevoked, if_neg (by simp), if_neg (by simp), if_neg hown, if_neg halg,
      h.signature]
    rfl

/-- A refusal says nothing about the chain. -/
theorem checkAnchor_eq_some {v : AnchorVerdict}
    (h : self.checkAnchor P C reg doc signature anchorPub = .ok (some v)) :
    v.isValid = false ∧ v.isStale = false ∧ v.isReplaced = false := by
  unfold ChainAnchor.checkAnchor at h
  split at h
  · cases h; exact ⟨rfl, rfl, rfl⟩
  split at h
  · cases h; exact ⟨rfl, rfl, rfl⟩
  split at h
  · cases h; exact ⟨rfl, rfl, rfl⟩
  split at h
  · cases h; exact ⟨rfl, rfl, rfl⟩
  obtain ⟨holds, -, h⟩ := bind_eq_ok.mp h
  cases holds with
  | false => cases h; exact ⟨rfl, rfl, rfl⟩
  | true => cases h

/-- **`verify` on an anchor that passes the checks** gives the verdict on the chain. -/
theorem verify_eq_compareLive {store : AnchorStore} (hdoc : store.anchor = some doc)
    (hsig : fromHexE doc.signature = .ok signature) (hpub : fromHexE doc.publicKey = .ok anchorPub)
    (hreg : self.readRegistry store = .ok reg)
    (h : PassesChecks P C self reg doc signature anchorPub) :
    self.verify P fromisoformat C chain store
      = compareLive P fromisoformat chain doc.snapshot (reg.isRecovery anchorPub) := by
  unfold ChainAnchor.verify
  rw [hdoc]
  simp only [hsig, hpub, hreg, checkAnchor_eq_none.mpr h, bind, Except.bind]

/-- **A verdict that is valid, stale or replaced comes from the chain**: every check has passed. -/
theorem passesChecks_of_verify {store : AnchorStore} {v : AnchorVerdict}
    (h : self.verify P fromisoformat C chain store = .ok v)
    (hv : v.isValid = true ∨ v.isStale = true ∨ v.isReplaced = true) :
    ∃ doc signature anchorPub reg, store.anchor = some doc ∧
      fromHexE doc.signature = .ok signature ∧ fromHexE doc.publicKey = .ok anchorPub ∧
      self.readRegistry store = .ok reg ∧ PassesChecks P C self reg doc signature anchorPub ∧
      compareLive P fromisoformat chain doc.snapshot (reg.isRecovery anchorPub) = .ok v := by
  unfold ChainAnchor.verify at h
  split at h
  · cases h
    rcases hv with hv | hv | hv <;> cases hv
  · next doc hdoc =>
    obtain ⟨signature, hsig, h⟩ := bind_eq_ok.mp h
    obtain ⟨anchorPub, hpub, h⟩ := bind_eq_ok.mp h
    obtain ⟨reg, hreg, h⟩ := bind_eq_ok.mp h
    obtain ⟨refusal, hcheck, h⟩ := bind_eq_ok.mp h
    cases refusal with
    | some w =>
      cases h
      obtain ⟨hvalid, hstale, hreplaced⟩ := checkAnchor_eq_some hcheck
      simp [hvalid, hstale, hreplaced] at hv
    | none => exact ⟨doc, signature, anchorPub, reg, hdoc, hsig, hpub, hreg,
        checkAnchor_eq_none.mp hcheck, h⟩

/-- An anchor signed with the verifier's own key passes, where the key is authorized. -/
theorem passesChecks_own (hb : Honest C b) {now : Str}
    (hdoc : (ChainAnchor.signing b).signedDoc P chain now = .ok doc) (hpub : self.pub = b.publicKey)
    (halg : self.algorithm = b.algorithm) (hauth : Authorized reg b.publicKey) :
    ∃ signature, fromHexE doc.signature = .ok signature ∧
      fromHexE doc.publicKey = .ok b.publicKey ∧
      PassesChecks P C self reg doc signature b.publicKey := by
  obtain ⟨canonical, signature, -, hcan, hsig, hrec⟩ := signedDoc_eq_ok.mp hdoc
  refine ⟨signature, by rw [hrec]; exact fromHexE_hex _, by rw [hrec]; exact fromHexE_hex _,
    hauth, Or.inl hpub.symm, Or.inl ?_, ?_⟩
  · rw [hrec, halg]
    rfl
  · rw [ChainAnchor.checkSignature, hcan, hpub, halg]
    exact hb.verifies hsig

end Ledger
