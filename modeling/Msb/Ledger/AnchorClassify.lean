import Msb.Ledger.AnchorSpec
import Msb.Ledger.AppendVerify
import Msb.Ledger.TamperEvidence

/-!
# The verdict on the live chain

An anchor signed over a valid chain, checked against another valid chain. The verdict is computed
from the tip hash, the last `seq`, a scan for the tip hash and two fingerprints; it is the prefix
relation of the two chains, except where an anchor over the empty chain meets a chain with rows,
where the `seq` values do not follow the hashes, and where the times cannot be compared.

* `verify_classified_iff` — the verdict is right exactly when `Classifiable`
-/

namespace Ledger

open Py HashChain

variable {P : Platform} {fromisoformat : IsoParser} {C : Crypto}

abbrev hashes (rows : List AuditRow) : List Str := rows.map AuditRow.recordHash

/-- `rows` continues `anchored` by at least one record. -/
def StrictPrefix (anchored rows : List AuditRow) : Prop :=
  hashes anchored <+: hashes rows ∧ hashes anchored ≠ hashes rows

/-! ## Hashes of valid chains -/

variable {A L : List AuditRow}

theorem hashTip_congr (h : hashes A = hashes L) : hashTip A = hashTip L := by
  have hmap : A.map AuditRow.recordHash = L.map AuditRow.recordHash := h
  rw [hashTip, hashTip, tip_eq_getLast?, tip_eq_getLast?, ← List.getLast?_map, ← List.getLast?_map,
    hmap]

theorem hashes_eq_of_sameRows (h : List.Forall₂ SameRow A L) :
    hashes A = hashes L := by
  induction h with
  | nil => rfl
  | cons hab _ ih => simp only [hashes, List.map_cons, hab.recordHash] at ih ⊢; rw [ih]

/-- The tip hash of a valid chain determines all its hashes. -/
theorem hashTip_eq_iff (hP : CollisionFree P) (hA : ValidRows P A) (hL : ValidRows P L) :
    hashTip A = hashTip L ↔ hashes A = hashes L :=
  ⟨fun h => hashes_eq_of_sameRows (sameRows_of_tip_eq hP hA hL h), hashTip_congr⟩

/-- The scan finds the tip exactly when the anchored chain is a prefix with rows. -/
theorem mem_hashTip_iff (hP : CollisionFree P) (hA : ValidRows P A) (hL : ValidRows P L) :
    (∃ r ∈ L, r.recordHash = hashTip A) ↔ A ≠ [] ∧ hashes A <+: hashes L := by
  constructor
  · rintro ⟨r, hr, htip⟩
    refine ⟨?_, ?_⟩
    · rintro rfl
      exact hL.ne_genesis hP r hr htip
    · obtain ⟨pre, post, rfl, hsame⟩ := isPrefix_of_mem_tip hP hA hL hr htip
      refine ⟨hashes post, ?_⟩
      rw [hashes_eq_of_sameRows hsame]
      exact List.map_append.symm
  · rintro ⟨hne, hpre⟩
    rcases List.eq_nil_or_concat A with rfl | ⟨init, last, rfl⟩
    · exact absurd rfl hne
    · have hmem : hashTip (init.concat last) ∈ hashes L := by
        refine hpre.subset ?_
        simp [hashTip, hashes]
      obtain ⟨r, hr, htip⟩ := List.mem_map.mp hmem
      exact ⟨r, hr, htip⟩

/-! ## Times -/

/-- Both times have a zone or both have none, as far as they parse. -/
def ComparableTimes (fromisoformat : IsoParser) (rows : List AuditRow) (anchoredAt : Str) : Prop :=
  ∀ newest ∈ rows.getLast?, ∀ a ∈ fromisoformat (replaceZ anchoredAt),
    ∀ n ∈ fromisoformat (replaceZ newest.timestamp), n.aware = a.aware

/-- `_chain_newer_than_anchor` raises exactly on times that cannot be compared. -/
theorem newerThanAnchor_isOk {rows : List AuditRow} {records : List AuditRecord} {anchoredAt : Str}
    (h : getChain rows = .ok records) :
    (∃ d, newerThanAnchor fromisoformat records anchoredAt = .ok d)
      ↔ ComparableTimes fromisoformat rows anchoredAt := by
  have hlast : records.getLast?.map AuditRecord.timestamp =
      rows.getLast?.map AuditRow.timestamp := by
    rw [← List.getLast?_map, ← List.getLast?_map, getChain_timestamps h]
  unfold newerThanAnchor ComparableTimes
  generalize records.getLast? = lastRecord at hlast ⊢
  generalize rows.getLast? = lastRow at hlast ⊢
  rcases lastRecord with _ | record
  · rcases lastRow with _ | row
    · simp
    · cases hlast
  · rcases lastRow with _ | row
    · cases hlast
    · have hts : record.timestamp = row.timestamp := Option.some.inj hlast
      simp only [hts, Option.mem_def, Option.some.injEq, forall_eq']
      rcases fromisoformat (replaceZ anchoredAt) with _ | a
      · simp
      · rcases fromisoformat (replaceZ row.timestamp) with _ | n
        · simp
        · by_cases haware : n.aware = a.aware
          · simp [isoDiff, haware, Except.map]
          · simp [isoDiff, haware, Except.map]

/-! ## The three outcomes -/

section

variable {chain : Chain} {rows : List AuditRow} {records : List AuditRecord} {live : TipMark}
  {snap : Snapshot} {recoverySigner : Bool}

theorem compareLive_same (hget : chain.getChain = .ok records) (hmark : chain.mark P = .ok live)
    (htip : live.tipHash = snap.tipHash) (hseq : live.seq = snap.seq)
    (hsha : live.chainSha256 = snap.chainSha256) (hroot : snap.merkleRoot = some live.merkleRoot) :
    compareLive P fromisoformat chain snap recoverySigner
      = (newerThanAnchor fromisoformat records snap.anchoredAt).map fun d =>
          .valid live.recordCount live.tipHash snap.anchoredAt d recoverySigner := by
  unfold compareLive
  simp only [hmark, htip, hseq, hsha, hroot, hget, ne_eq, not_true, or_self, if_false,
    Option.filter_some, decide_false, Bool.false_eq_true, bind, Except.bind]
  cases newerThanAnchor fromisoformat records snap.anchoredAt <;> rfl

theorem compareLive_stale (hget : chain.getChain = .ok records) (hmark : chain.mark P = .ok live)
    (hmem : (records.any fun r => r.recordHash = snap.tipHash) = true)
    (hseq : snap.seq < live.seq) :
    compareLive P fromisoformat chain snap recoverySigner
      = (newerThanAnchor fromisoformat records snap.anchoredAt).map fun d =>
          .stale d snap.tipHash snap.seq live.tipHash live.seq := by
  unfold compareLive
  simp only [hmark]
  rw [if_pos (Or.inr hseq.ne')]
  simp only [hget, hmem, hseq, and_self, if_true, bind, Except.bind]
  cases newerThanAnchor fromisoformat records snap.anchoredAt <;> rfl

theorem compareLive_replaced (hget : chain.getChain = .ok records)
    (hmark : chain.mark P = .ok live) (hdiff : live.tipHash ≠ snap.tipHash ∨ live.seq ≠ snap.seq)
    (hno : ¬((records.any fun r => r.recordHash = snap.tipHash) = true ∧ snap.seq < live.seq)) :
    compareLive P fromisoformat chain snap recoverySigner
      = .ok (.replaced snap.tipHash snap.seq live.tipHash live.seq) := by
  unfold compareLive
  simp only [hmark]
  rw [if_pos hdiff]
  simp only [hget, if_neg hno, bind, Except.bind]

/-- Another tip or another `seq` is never valid. -/
theorem compareLive_not_valid (hget : chain.getChain = .ok records)
    (hmark : chain.mark P = .ok live) (hdiff : live.tipHash ≠ snap.tipHash ∨ live.seq ≠ snap.seq)
    {v : AnchorVerdict}
    (hv : compareLive P fromisoformat chain snap recoverySigner = .ok v) : v.isValid = false := by
  by_cases h : (records.any fun r => r.recordHash = snap.tipHash) = true ∧ snap.seq < live.seq
  · rw [compareLive_stale hget hmark h.1 h.2] at hv
    cases hd : newerThanAnchor fromisoformat records snap.anchoredAt with
    | error e => simp [hd, Except.map] at hv
    | ok d =>
      simp only [hd, Except.map, Except.ok.injEq] at hv
      rw [← hv]
      rfl
  · rw [compareLive_replaced hget hmark hdiff h] at hv
    cases hv
    rfl

end

/-! ## The verdict and the prefix relation -/

/-- The verdict is the one that the prefix relation asks for. -/
def Classified (result : Except PyError AnchorVerdict) (A L : List AuditRow) : Prop :=
  ∃ v, result = .ok v ∧ (v.isValid = true ↔ hashes A = hashes L) ∧
    (v.isStale = true ∧ v.isValid = false ↔ StrictPrefix A L) ∧
    (hashes A ≠ hashes L → ¬StrictPrefix A L → v.isReplaced = true)

/-- Where the comparison of `verify` follows the prefix relation. -/
structure Classifiable (fromisoformat : IsoParser) (A L : List AuditRow) (anchoredAt : Str) :
    Prop where
  seq_same : hashes A = hashes L → lastSeq L = lastSeq A
  prefix_ne : StrictPrefix A L → A ≠ []
  prefix_seq : StrictPrefix A L → lastSeq A < lastSeq L
  times : hashes A <+: hashes L → ComparableTimes fromisoformat L anchoredAt

/-- A snapshot that was taken of the chain `rows`. -/
structure SnapshotOf (P : Platform) (rows : List AuditRow) (snap : Snapshot) : Prop where
  seq : snap.seq = lastSeq rows
  count : snap.recordCount = rows.length
  tipHash : snap.tipHash = hashTip rows
  sha : ∃ b, encode (joinLines (hashes rows)) = some b ∧ snap.chainSha256 = P.hexdigest b
  root : ∃ root, merkleRoot P (hashes rows) = .ok root ∧ snap.merkleRoot = some root

theorem snapshotOf_signedDoc {b : SigningBackend} {chain : Chain} {rows : List AuditRow}
    {now : Str} {doc : AnchorDoc} (hread : chain.read = .ok rows)
    (hdoc : (ChainAnchor.signing b).signedDoc P chain now = .ok doc) :
    SnapshotOf P rows doc.snapshot ∧ doc.snapshot.anchoredAt = now := by
  obtain ⟨_, _, hsnap, -⟩ := signedDoc_eq_ok.mp hdoc
  obtain ⟨m, hm, hsnap⟩ := snapshot_eq_ok.mp hsnap
  obtain ⟨-, x, root, hx, hroot, rfl⟩ := (mark_eq_ok hread).mp hm
  rw [hsnap]
  exact ⟨⟨rfl, rfl, rfl, ⟨x, hx, rfl⟩, ⟨root, hroot, rfl⟩⟩, rfl⟩

theorem classified_map_iff {d : Except PyError Int} {f : Int → AnchorVerdict}
    (h : ∀ x, Classified (.ok (f x)) A L) : Classified (d.map f) A L ↔ ∃ x, d = .ok x := by
  cases d with
  | error e => simp [Classified, Except.map]
  | ok x => simpa [Except.map] using h x

theorem classified_replaced_iff {a l : Str} {m n : Int} (hne : hashes A ≠ hashes L) :
    Classified (.ok (.replaced a m l n)) A L ↔ ¬StrictPrefix A L := by
  constructor
  · rintro ⟨v, hv, -, hstale, -⟩ hpre
    cases hv
    exact absurd (hstale.mpr hpre).1 (by simp [AnchorVerdict.isStale])
  · intro hpre
    refine ⟨_, rfl, ?_, ?_, fun _ _ => rfl⟩
    · exact ⟨fun h => (by cases h), fun h => absurd h hne⟩
    · exact ⟨fun h => (by cases h.1), fun h => absurd h hpre⟩

theorem classified_stale {a l : Str} {d m n : Int} (h : StrictPrefix A L) :
    Classified (.ok (.stale d a m l n)) A L :=
  ⟨_, rfl, ⟨fun hv => (by cases hv), fun heq => absurd heq h.2⟩, ⟨fun _ => h, fun _ => ⟨rfl, rfl⟩⟩,
    fun _ hno => absurd h hno⟩

theorem classified_valid {n : Nat} {tipHash anchoredAt : Str} {d : Int} {r : Bool}
    (h : hashes A = hashes L) :
    Classified (.ok (.valid n tipHash anchoredAt d r)) A L :=
  ⟨_, rfl, ⟨fun _ => h, fun _ => rfl⟩, ⟨fun hv => (by cases hv.2), fun hpre => absurd h hpre.2⟩,
    fun hne _ => absurd h hne⟩

/-- **The comparison is right exactly when the pair is classifiable.** -/
theorem compareLive_classified_iff (hP : CollisionFree P) (hA : ValidRows P A) (hL : ValidRows P L)
    {chain : Chain} (hread : chain.read = .ok L) {snap : Snapshot} (hsnap : SnapshotOf P A snap)
    {recoverySigner : Bool} :
    Classified (compareLive P fromisoformat chain snap recoverySigner) A L
      ↔ Classifiable fromisoformat A L snap.anchoredAt := by
  obtain ⟨records, hrecords⟩ := getChain_isOk.mpr fun r hr => (hL.readable r hr).parses
  have hget : chain.getChain = .ok records := (getChain_of_read hread).trans hrecords
  have htimes : (∃ d, newerThanAnchor fromisoformat records snap.anchoredAt = .ok d)
      ↔ ComparableTimes fromisoformat L snap.anchoredAt := newerThanAnchor_isOk hrecords
  obtain ⟨m, hmark⟩ := exists_mark hread hL.readable
  obtain ⟨-, x, root, hx, hroot, hm⟩ := (mark_eq_ok hread).mp hmark
  have hscan : (records.any fun r => r.recordHash = snap.tipHash) = true
      ↔ A ≠ [] ∧ hashes A <+: hashes L := by
    rw [any_recordHash hrecords, hsnap.tipHash, mem_hashTip_iff hP hA hL]
  by_cases hsame : hashes A = hashes L
  · have hnot : ¬StrictPrefix A L := fun h => h.2 hsame
    have htip : m.tipHash = snap.tipHash := by rw [hm, hsnap.tipHash, hashTip_congr hsame]
    by_cases hseq : lastSeq L = lastSeq A
    · -- one chain: all the fingerprints agree
      obtain ⟨y, hy, hsha⟩ := hsnap.sha
      obtain ⟨root', hroot', hmerkle⟩ := hsnap.root
      rw [hsame, hx, Option.some.injEq] at hy
      rw [hsame, hroot, Except.ok.injEq] at hroot'
      rw [compareLive_same hget hmark htip (by rw [hm, hsnap.seq, hseq]) (by rw [hm, hsha, hy])
        (by rw [hm, hmerkle, hroot']), classified_map_iff fun _ => classified_valid hsame, htimes]
      constructor
      · exact fun h => ⟨fun _ => hseq, fun hpre => absurd hpre hnot, fun hpre => absurd hpre hnot,
          fun _ => h⟩
      · exact fun h => h.times (hsame ▸ List.prefix_rfl)
    -- the numbers differ, so the comparison does not find the chain valid
    · constructor
      · rintro ⟨v, hv, hvalid, -⟩
        have hdiff : m.seq ≠ snap.seq := by
          rw [hm, hsnap.seq]
          exact hseq
        have hfalse := compareLive_not_valid hget hmark (Or.inr hdiff) hv
        rw [hvalid.mpr hsame] at hfalse
        cases hfalse
      · exact fun h => absurd (h.seq_same hsame) hseq
  · have hdiff : m.tipHash ≠ snap.tipHash := by
      rw [hm, hsnap.tipHash]
      exact fun h => hsame ((hashTip_eq_iff hP hA hL).mp h.symm)
    -- the live chain goes on from the anchored one, or is another
    by_cases hpre : hashes A <+: hashes L
    · have hstrict : StrictPrefix A L := ⟨hpre, hsame⟩
      by_cases hgrow : A ≠ [] ∧ lastSeq A < lastSeq L
      · rw [compareLive_stale hget hmark (hscan.mpr ⟨hgrow.1, hpre⟩)
          (by rw [hm, hsnap.seq]; exact hgrow.2), classified_map_iff fun _ =>
          classified_stale hstrict,
          htimes]
        constructor
        · exact fun h => ⟨fun heq => absurd heq hsame, fun _ => hgrow.1, fun _ => hgrow.2,
            fun _ => h⟩
        · exact fun h => h.times hpre
      · -- the genesis anchor, or a `seq` that did not grow
        have hno : ¬((records.any fun r => r.recordHash = snap.tipHash) = true ∧
            snap.seq < m.seq) := by
          rw [hscan, hsnap.seq, hm]
          exact fun h => hgrow ⟨h.1.1, h.2⟩
        rw [compareLive_replaced hget hmark (Or.inl hdiff) hno, classified_replaced_iff hsame]
        constructor
        · exact fun h => absurd hstrict h
        · exact fun h => absurd ⟨h.prefix_ne hstrict, h.prefix_seq hstrict⟩ hgrow
    · have hstrict : ¬StrictPrefix A L := fun h => hpre h.1
      have hno : ¬((records.any fun r => r.recordHash = snap.tipHash) = true ∧
          snap.seq < m.seq) := by
        rw [hscan]
        exact fun h => hpre h.1.2
      rw [compareLive_replaced hget hmark (Or.inl hdiff) hno, classified_replaced_iff hsame]
      exact ⟨fun _ => ⟨fun heq => absurd heq hsame, fun h => absurd h hstrict,
        fun h => absurd h hstrict, fun h => absurd h hpre⟩, fun _ => hstrict⟩

/-- **`verify` classifies a pair of valid chains exactly when** the signing key is not revoked and
the pair is classifiable. -/
theorem verify_classified_iff (hP : CollisionFree P) {b : SigningBackend} (hb : Honest C b)
    {self : ChainAnchor} (hpub : self.pub = b.publicKey) (halg : self.algorithm = b.algorithm)
    {A L : List AuditRow} (hA : ValidRows P A) (hL : ValidRows P L) {dbPath now : Str}
    {doc : AnchorDoc}
    (hdoc : (ChainAnchor.signing b).signedDoc P ⟨dbPath, .ok A⟩ now = .ok doc)
    {store : AnchorStore} (hanchor : store.anchor = some doc) {reg : KeyRegistry}
    (hreg : self.readRegistry store = .ok reg) (hcurrent : reg.isCurrent b.publicKey = true) :
    Classified (self.verify P fromisoformat C ⟨dbPath, .ok L⟩ store) A L
      ↔ reg.isRevoked b.publicKey = false ∧ Classifiable fromisoformat A L now := by
  obtain ⟨hsnap, hnow⟩ := snapshotOf_signedDoc rfl hdoc
  cases hrev : reg.isRevoked b.publicKey with
  | false =>
    obtain ⟨signature, hsig, hkey, hpass⟩ :=
      passesChecks_own hb hdoc hpub halg ⟨Or.inl hcurrent, hrev⟩
    rw [verify_eq_compareLive hanchor hsig hkey hreg hpass,
      compareLive_classified_iff hP hA hL rfl hsnap, hnow]
    simp
  | true =>
    simp only [Bool.true_eq_false, false_and, iff_false]
    rintro ⟨v, hv, hvalid, hstale, hreplaced⟩
    have hsome : v.isValid = true ∨ v.isStale = true ∨ v.isReplaced = true := by
      by_cases hsame : hashes A = hashes L
      · exact Or.inl (hvalid.mpr hsame)
      · by_cases hstrict : StrictPrefix A L
        · exact Or.inr (Or.inl (hstale.mpr hstrict).1)
        · exact Or.inr (Or.inr (hreplaced hsame hstrict))
    obtain ⟨doc', _, anchorPub, reg', hdoc', -, hkey, hreg', hpass, -⟩ :=
      passesChecks_of_verify hv hsome
    obtain rfl : doc = doc' := Option.some.inj (hanchor.symm.trans hdoc')
    obtain rfl : reg = reg' := Except.ok.inj (hreg.symm.trans hreg')
    obtain ⟨_, _, -, -, -, hrec⟩ := signedDoc_eq_ok.mp hdoc
    rw [hrec, fromHexE_hex] at hkey
    obtain rfl := Except.ok.inj hkey
    rw [hpass.authorized.unrevoked] at hrev
    cases hrev

/-- An anchor over one row, checked against two rows. -/
theorem verify_classified_grown : ∃ doc,
    (ChainAnchor.signing (.plain [1])).signedDoc .tagged ⟨[], .ok (rowsOf [nestedPayload])⟩ []
      = .ok doc ∧
    Classified ((ChainAnchor.signing (.plain [1])).verify .tagged (fun _ => none) .plain
      ⟨[], .ok (rowsOf [nestedPayload, .none])⟩ ⟨some doc, none⟩)
      (rowsOf [nestedPayload]) (rowsOf [nestedPayload, .none]) := by
  have hA : verifyChain .tagged (.ok (rowsOf [nestedPayload])) = .ok (.valid 1) := by
    decide +kernel
  have hL : verifyChain .tagged (.ok (rowsOf [nestedPayload, .none])) = .ok (.valid 2) := by
    decide +kernel
  have hsome : ((ChainAnchor.signing (.plain [1])).signedDoc .tagged
      ⟨[], .ok (rowsOf [nestedPayload])⟩ []).toOption.isSome = true := by decide +kernel
  obtain ⟨doc, hdoc⟩ := Option.isSome_iff_exists.mp hsome
  rw [toOption_eq_some] at hdoc
  have hreg : (ChainAnchor.signing (.plain [1])).readRegistry ⟨some doc, none⟩
      = .ok ⟨[1], .ed25519, none, none, [], []⟩ := rfl
  have hb : Honest .plain (.plain [1]) := honest_plain (by simp)
  have hpub : (ChainAnchor.signing (.plain [1])).pub = (SigningBackend.plain [1]).publicKey := rfl
  refine ⟨doc, hdoc, (verify_classified_iff collisionFree_tagged hb hpub rfl
    (verifyChain_valid_iff.mp hA).1 (verifyChain_valid_iff.mp hL).1 hdoc rfl hreg (by decide)).mpr
    ⟨rfl, ?_, ?_, ?_, ?_⟩⟩
  · exact fun h => absurd h (by decide +kernel)
  · exact fun _ => by decide +kernel
  · exact fun _ => by decide +kernel
  · intro _ newest _ a ha
    cases ha

/-- An anchor over the empty chain, checked against one row: `A` is a strict prefix of `L`, and the
verdict is a replacement. -/
theorem verify_genesis_anchor : ∃ doc v,
    (ChainAnchor.signing (.plain [1])).signedDoc .tagged ⟨[], .ok []⟩ [] = .ok doc ∧
    verifyChain .tagged (.ok (rowsOf [nestedPayload])) = .ok (.valid 1) ∧
    StrictPrefix [] (rowsOf [nestedPayload]) ∧
    (ChainAnchor.signing (.plain [1])).verify .tagged (fun _ => none) .plain
      ⟨[], .ok (rowsOf [nestedPayload])⟩ ⟨some doc, none⟩ = .ok v ∧
    v.isStale = false ∧ v.isReplaced = true := by
  have hrun : (((ChainAnchor.signing (.plain [1])).signedDoc .tagged
      ⟨[], .ok []⟩ []).toOption.bind fun doc =>
        ((ChainAnchor.signing (.plain [1])).verify .tagged (fun _ => none) .plain
          ⟨[], .ok (rowsOf [nestedPayload])⟩ ⟨some doc, none⟩).toOption.map fun v =>
            (v.isStale, v.isReplaced)) = some (false, true) := by decide +kernel
  obtain ⟨doc, hdoc, hverify⟩ := Option.bind_eq_some_iff.mp hrun
  obtain ⟨v, hv, hflags⟩ := Option.map_eq_some_iff.mp hverify
  rw [toOption_eq_some] at hdoc hv
  obtain ⟨hstale, hreplaced⟩ := Prod.mk.inj hflags
  refine ⟨doc, v, hdoc, by decide +kernel, ⟨List.nil_prefix, by decide +kernel⟩, hv, hstale,
    hreplaced⟩

end Ledger
