import Msb.Infra.Run
import Msb.Ledger.AnchorClassify
import Msb.Ledger.KeyOps

/-!
# The notary log through key changes

Runs of appends and key operations on one chain, with the notary log that `notarize` writes. An
entry is accepted as long as its key is registered: the current key, the recovery key, or a party
of a rotation. A rotation keeps the old key that way; `recover` and `register_recovery` put a new
key in the place of the old one and record nothing, so that much is up to the callers (`Keeps`).

* `isRegistered_of_effect` — which keys an operation keeps registered
* `verifyNotaryEntry_valid` — a registered key, a sound signature and a tip in the chain suffice
* `history_accepted` — in a run that keeps its keys, every entry stays accepted
-/

namespace Ledger

open Py HashChain Machine

/-! ## Runs -/

/-- The database, the two files, and the notary log. -/
structure LedgerState where
  db : AuditDb
  store : AnchorStore
  log : List NotaryEntry

/-- An empty chain, and no files yet. -/
def LedgerState.init : LedgerState := ⟨AuditDb.init, ⟨none, none⟩, []⟩

inductive LedgerEvent where
  | append (call : AppendCall) (timestamp : Str)
  | call (op : KeyOp)

section

variable (P : Platform) (fromisoformat : IsoParser) (C : Crypto) (dbPath : Str)

def LedgerState.chain (s : LedgerState) : Chain := ⟨dbPath, .ok s.db.rows⟩

def ledgerStep (s : LedgerState) : LedgerEvent → Option LedgerState
  | .append call timestamp =>
    match insertRow P s.db call timestamp with
    | .error _ => some s
    | .ok (_, db) => some { s with db := db }
  | .call op =>
    match op.apply P fromisoformat C (s.chain dbPath) s.store with
    | (.ok (some entry), store) => some ⟨s.db, store, s.log ++ [entry]⟩
    | (_, store) => some { s with store := store }

/-- The entry was made over a chain with rows. -/
def NotaryEntry.Covers (e : NotaryEntry) : Prop := e.anchor.snapshot.recordCount ≠ 0

/-- Every entry over rows is accepted, whoever verifies. Without a registry, the bootstrap key
verifies: any other verifier would take itself for the current key. -/
def HistoryAccepted (bootstrap : ChainAnchor) (s : LedgerState) : Prop :=
  ∀ e ∈ s.log, e.Covers → ∀ verifier : ChainAnchor,
    ((∃ reg, KeyRegistry.load s.store.registry = .ok reg ∧ reg.currentPublicKey ≠ []) ∨
      verifier.pub = bootstrap.pub) →
    ∃ v, verifier.verifyNotaryEntry P C e (s.chain dbPath) s.store = .ok v ∧ v.isValid = true

end

/-! ## What the callers must keep -/

/-- The key is a party of a rotation. -/
def KeyRegistry.isRotated (r : KeyRegistry) (k : Bytes) : Bool :=
  r.rotations.any fun t => t.fromKey = hex k || t.toKey = hex k

/-- The backends that an operation signs with. -/
def KeyOp.backends : KeyOp → List SigningBackend
  | .anchor (.signing b) _ | .notarize (.signing b) _ | .revoke (.signing b) _ _ _ => [b]
  | .rotate (.signing b) newBackend _ _ => [b, newBackend]
  | .recover _ recoveryBackend _ _ => [recoveryBackend]
  | _ => []

/-- The operation leaves the key registered: it does not take the place of the key, or the key is
registered otherwise. -/
def KeyOp.KeepsKey (P : Platform) (reg : KeyRegistry) (k : Bytes) : KeyOp → Prop
  | .registerRecovery _ key _ => reg.recoveryPublicKey = some k →
    reg.isRotated k = true ∨ k = reg.currentPublicKey ∨ k = key
  | .recover _ recoveryBackend reason now =>
    reg.recoveryPublicKey = some recoveryBackend.publicKey →
    reg.isRevoked recoveryBackend.publicKey = false →
    recoveryBackend.Endorses P (rotationBody (hex recoveryBackend.publicKey)
      (hex recoveryBackend.publicKey) recoveryBackend.algorithm recoveryBackend.algorithm now
      (if reason = [] then lit "recovery: primary key lost" else reason)) →
    k = reg.currentPublicKey → reg.isRotated k = true ∨ k = recoveryBackend.publicKey
  | _ => True

/-- The key of the anchor that `notarize` exports is registered, where the anchor covers rows. -/
def KeyOp.ExportsRegistered (s : LedgerState) (reg : KeyRegistry) : KeyOp → Prop
  | .notarize self _ =>
    (s.store.anchor.map fun doc => doc.snapshot.recordCount).getD s.db.rows.length ≠ 0 →
    ∀ k, (s.store.anchor.map AnchorDoc.publicKey).getD (hex self.pub) = hex k →
      reg.isRegistered k = true
  | _ => True

/-- The call keeps the registry as the log needs it: the first registry is written by the bootstrap
key, no key of a logged entry is displaced, and no anchor of an unregistered key is exported. -/
structure Keeps (P : Platform) (bootstrap : ChainAnchor) (s : LedgerState) (op : KeyOp)
    (reg : KeyRegistry) : Prop where
  founded : op.boots = true → reg.currentPublicKey = [] → op.self.pub = bootstrap.pub
  keys : ∀ e ∈ s.log, e.Covers → ∀ k, e.anchor.publicKey = hex k →
    op.KeepsKey P (bootstrap.boot reg) k
  exports : op.ExportsRegistered s (bootstrap.boot reg)

/-- The condition on an event. -/
def LedgerEvent.Keeps (P : Platform) (bootstrap : ChainAnchor) (s : LedgerState) :
    LedgerEvent → Prop
  | .append _ _ => True
  | .call op =>
    ∀ reg, KeyRegistry.load s.store.registry = .ok reg → Ledger.Keeps P bootstrap s op reg

/-- The backends of an event are honest. -/
def LedgerEvent.Honest (C : Crypto) : LedgerEvent → Prop
  | .append _ _ => True
  | .call op => ∀ b ∈ op.backends, Ledger.Honest C b

variable {P : Platform} {fromisoformat : IsoParser} {C : Crypto} {dbPath : Str}

/-! ## Registered keys -/

theorem isRegistered_iff {reg : KeyRegistry} {k : Bytes} :
    reg.isRegistered k = true ↔ (reg.currentPublicKey ≠ [] ∧ k = reg.currentPublicKey) ∨
      (k ≠ [] ∧ reg.recoveryPublicKey = some k) ∨ reg.isRotated k = true := by
  rw [KeyRegistry.isRegistered, Bool.or_eq_true, Bool.or_eq_true, isCurrent_iff, isRecovery_iff,
    or_assoc]
  rfl

/-- Whether a key is registered is told from three fields. -/
theorem isRegistered_congr {reg reg' : KeyRegistry}
    (hcur : reg'.currentPublicKey = reg.currentPublicKey)
    (hrec : reg'.recoveryPublicKey = reg.recoveryPublicKey) (hrot : reg'.rotations = reg.rotations)
    (k : Bytes) : reg'.isRegistered k = reg.isRegistered k := by
  simp only [KeyRegistry.isRegistered, KeyRegistry.isCurrent, KeyRegistry.isRecovery, hcur,
    hrec, hrot]

theorem isRotated_append {reg : KeyRegistry} {record : RotationRecord} {k : Bytes}
    (h : reg.isRotated k = true ∨ record.fromKey = hex k) :
    ((reg.rotations ++ [record]).any fun t => t.fromKey = hex k || t.toKey = hex k) = true := by
  rw [List.any_append, Bool.or_eq_true]
  rcases h with h | h
  · exact Or.inl h
  · exact Or.inr (by simp [h])

section

variable {bootstrap : ChainAnchor} {reg reg' : KeyRegistry}

/-- Whoever boots as the bootstrap key would, boots the same current key. -/
theorem boot_current_eq {self : ChainAnchor}
    (h : reg.currentPublicKey = [] → self.pub = bootstrap.pub) :
    (self.boot reg).currentPublicKey = (bootstrap.boot reg).currentPublicKey := by
  unfold ChainAnchor.boot
  by_cases hnil : reg.currentPublicKey = []
  · rw [if_pos hnil, if_pos hnil]
    exact h hnil
  · rw [if_neg hnil, if_neg hnil]

/-- **An operation keeps a key registered**, where it does not put another key in its place. -/
theorem isRegistered_of_effect (hboot : bootstrap.pub ≠ []) {op : KeyOp}
    {signer : Option SigningBackend} (h : KeyEffect P op reg reg' signer)
    (hhonest : ∀ b ∈ op.backends, Honest C b) (hrec : reg.recoveryPublicKey ≠ some [])
    (hfounded : op.boots = true → reg.currentPublicKey = [] → op.self.pub = bootstrap.pub)
    {k : Bytes} (hkeep : op.KeepsKey P (bootstrap.boot reg) k)
    (hk : (bootstrap.boot reg).isRegistered k = true) :
    (bootstrap.boot reg').isRegistered k = true := by
  have hne := boot_current_ne hboot reg
  cases h with
  | unchanged | anchored | notarized => exact hk
  | booted boots =>
    have hcur := boot_current_eq (hfounded boots)
    rw [ChainAnchor.boot_of_ne (hcur ▸ hne), isRegistered_congr hcur (by simp) (by simp)]
    exact hk
  | @rotated b newBackend _ _ _ record current _ fromKey =>
    have hcur := boot_current_eq (hfounded rfl)
    have hnew : newBackend.publicKey ≠ [] :=
      (hhonest newBackend (by simp [KeyOp.backends])).key_ne_nil
    rw [ChainAnchor.boot_of_ne hnew, isRegistered_iff]
    rcases isRegistered_iff.mp hk with ⟨-, rfl⟩ | hrecovery | hrotated
    · -- the old key endorsed the new one
      refine Or.inr (Or.inr (isRotated_append (Or.inr ?_)))
      rw [fromKey, (isCurrent_iff.mp current).2]
      exact congrArg hex hcur
    · exact Or.inr (Or.inl (by simpa using hrecovery))
    · rw [KeyRegistry.isRotated, ChainAnchor.boot_rotations] at hrotated
      exact Or.inr (Or.inr (isRotated_append (Or.inl hrotated)))
  | @recoveryRegistered self key algorithm _ =>
    have hcur : ((self.boot reg).registerRecovery key algorithm).normal.currentPublicKey
        = (bootstrap.boot reg).currentPublicKey := boot_current_eq (hfounded rfl)
    have hrot : ((self.boot reg).registerRecovery key algorithm).normal.isRotated k
        = (bootstrap.boot reg).isRotated k := by
      simp [KeyRegistry.isRotated, KeyRegistry.normal, KeyRegistry.registerRecovery]
    rw [ChainAnchor.boot_of_ne (hcur ▸ hne), isRegistered_iff, hcur, hrot]
    rcases isRegistered_iff.mp hk with hcurrent | ⟨hkne, hrecovery⟩ | hrotated
    · exact Or.inl hcurrent
    · rcases hkeep hrecovery with hrotated | hcurrent | rfl
      · exact Or.inr (Or.inr hrotated)
      · exact Or.inl ⟨hne, hcurrent⟩
      · exact Or.inr (Or.inl ⟨hkne, by
          simp [KeyRegistry.normal, KeyRegistry.registerRecovery, hkne]⟩)
    · exact Or.inr (Or.inr hrotated)
  | @recovered self recoveryBackend _ _ _ record recovery unrevoked endorsed =>
    have hnew : recoveryBackend.publicKey ≠ [] := by
      intro hnil
      rw [recovery, hnil] at hrec
      exact hrec rfl
    rw [ChainAnchor.boot_of_ne hnew, isRegistered_iff]
    have hrotated : (bootstrap.boot reg).isRotated k = true →
        ((reg.rotations ++ [record]).any fun t => t.fromKey = hex k || t.toKey = hex k) = true := by
      rw [KeyRegistry.isRotated, ChainAnchor.boot_rotations]
      exact fun h => isRotated_append (Or.inl h)
    rcases isRegistered_iff.mp hk with ⟨-, hcurrent⟩ | hrecovery | hrot
    · rcases hkeep (by simpa using recovery) (by simpa using unrevoked) endorsed hcurrent with
        hrot | hsame
      · exact Or.inr (Or.inr (hrotated hrot))
      · exact Or.inl ⟨hnew, hsame⟩
    · exact Or.inr (Or.inl (by simpa using hrecovery))
    · exact Or.inr (Or.inr (hrotated hrot))
  | @revoked b keyToRevoke _ _ _ record registered endorsed =>
    have hcur : ((ChainAnchor.signing b).boot reg).currentPublicKey
        = (bootstrap.boot reg).currentPublicKey := boot_current_eq (hfounded rfl)
    rw [ChainAnchor.boot_of_ne (hcur ▸ hne)]
    exact (isRegistered_congr hcur (by simp) (by simp) k).trans hk

end

/-! ## Sound anchors -/

/-- The anchor is soundly signed, and its tip is a row. -/
structure SoundDoc (P : Platform) (C : Crypto) (rows : List AuditRow) (doc : AnchorDoc) : Prop where
  signed : ∃ k signature canonical, doc.publicKey = hex k ∧ doc.signature = hex signature ∧
    canonicalBytes P doc.snapshot.dict = .ok canonical ∧
    verifySignature C canonical signature k doc.recordedAlgorithm = .ok true
  tip : doc.snapshot.recordCount ≠ 0 → ∃ r ∈ rows, r.recordHash = doc.snapshot.tipHash

variable {rows : List AuditRow} {chain : Chain} {entry : NotaryEntry} {store : AnchorStore}
  {op : KeyOp} {s : LedgerState}

theorem SoundDoc.grow {rows' : List AuditRow} {doc : AnchorDoc} (h : SoundDoc P C rows doc)
    (hrows : rows <+: rows') : SoundDoc P C rows' doc := by
  refine ⟨h.signed, fun hcount => ?_⟩
  obtain ⟨r, hr, htip⟩ := h.tip hcount
  exact ⟨r, hrows.subset hr, htip⟩

/-- What an honest backend signs is sound. -/
theorem soundDoc_of_signedDoc {b : SigningBackend} (hb : Honest C b) (hread : chain.read = .ok rows)
    {now : Str} {doc : AnchorDoc} (h : (ChainAnchor.signing b).signedDoc P chain now = .ok doc) :
    SoundDoc P C rows doc := by
  obtain ⟨canonical, signature, -, hcan, hsig, hrec⟩ := signedDoc_eq_ok.mp h
  obtain ⟨hsnap, -⟩ := snapshotOf_signedDoc hread h
  refine ⟨⟨b.publicKey, signature, canonical, by rw [hrec], by rw [hrec], hcan, ?_⟩,
    fun hcount => ?_⟩
  · rw [hrec]
    exact hb.verifies hsig
  · rw [hsnap.count] at hcount
    rw [hsnap.tipHash]
    rcases tip_mem AuditRow.recordHash genesisHash rows with ⟨-, rfl⟩ | hmem
    · exact absurd rfl hcount
    · exact hmem

/-- The proof of the time, where there is one, is verified and covers the entry. -/
def NotaryEntry.Stamped (P : Platform) (e : NotaryEntry) : Prop :=
  ∀ proof, e.timestamp = some proof → proof.digestSha256 ≠ [] →
    ∃ stamped, canonicalBytes P e.stampedDict = .ok stamped ∧
      proof.digestSha256 = P.hexdigest stamped ∧
      (proof.source = lit "rfc3161" → proof.verified = true)

/-- **When an entry is accepted.** -/
theorem verifyNotaryEntry_isValid {verifier : ChainAnchor} :
    (∃ v, verifier.verifyNotaryEntry P C entry chain store = .ok v ∧ v.isValid = true) ↔
    ∃ signature pub reg canonical records, fromHexE entry.anchor.signature = .ok signature ∧
      fromHexE entry.anchor.publicKey = .ok pub ∧ verifier.readRegistry store = .ok reg ∧
      reg.isRegistered pub = true ∧ canonicalBytes P entry.anchor.snapshot.dict = .ok canonical ∧
      verifySignature C canonical signature pub entry.anchor.recordedAlgorithm = .ok true ∧
      chain.getChain = .ok records ∧
      (records.any fun r => r.recordHash = entry.anchor.snapshot.tipHash) = true ∧
          entry.Stamped P := by
  unfold ChainAnchor.verifyNotaryEntry NotaryEntry.Stamped
  constructor
  · rintro ⟨v, h, hv⟩
    obtain ⟨signature, hsig, h⟩ := bind_eq_ok.mp h
    obtain ⟨pub, hpub, h⟩ := bind_eq_ok.mp h
    obtain ⟨reg, hreg, h⟩ := bind_eq_ok.mp h
    by_cases hkey : reg.isRegistered pub = true
    · simp only [hkey, Bool.not_true, Bool.false_eq_true, if_false] at h
      obtain ⟨canonical, hcan, h⟩ := bind_eq_ok.mp h
      cases hverify : verifySignature C canonical signature pub entry.anchor.recordedAlgorithm with
      | error e =>
        simp only [hverify, Bool.not_false, if_true] at h
        obtain rfl := Except.ok.inj h
        cases hv
      | ok holds =>
        cases holds with
        | false =>
          simp only [hverify, Bool.not_false, if_true] at h
          obtain rfl := Except.ok.inj h
          cases hv
        | true =>
        simp only [hverify, Bool.not_true, Bool.false_eq_true, if_false] at h
        obtain ⟨records, hrecords, h⟩ := bind_eq_ok.mp h
        refine ⟨signature, pub, reg, canonical, records, hsig, hpub, hreg, hkey, hcan, hverify,
          hrecords, ?_⟩
        split at h
        · obtain rfl := Except.ok.inj h
          cases hv
        · next hany =>
          refine ⟨by simpa using hany, fun proof hproof hdigest => ?_⟩
          -- only a proof with a digest is looked at
          have hfilter : entry.timestamp.filter (fun proof => proof.digestSha256 ≠ []) =
              some proof := by
            rw [hproof, Option.filter_some, if_pos (by simpa using hdigest)]
          simp only [hfilter] at h
          obtain ⟨stamped, hstamped, h⟩ := bind_eq_ok.mp h
          split at h
          · obtain rfl := Except.ok.inj h
            cases hv
          · next hcovers =>
            split at h
            · obtain rfl := Except.ok.inj h
              cases hv
            · next hsource =>
              refine ⟨stamped, hstamped, not_not.mp hcovers, fun hrfc => ?_⟩
              by_contra hnot
              exact hsource ⟨hrfc, by simpa using hnot⟩
    · simp only [hkey, Bool.not_false, if_true] at h
      obtain rfl := Except.ok.inj h
      cases hv
  · rintro ⟨signature, pub, reg, canonical, records, hsig, hpub, hreg, hkey, hcan,
      hverify, hrecords, hany, hstamp⟩
    simp only [hsig, hpub, hreg, hkey, hcan, hverify, hrecords, hany, bind, Except.bind,
      Bool.not_true, Bool.false_eq_true, if_false]
    cases hfilter : entry.timestamp.filter fun proof => proof.digestSha256 ≠ [] with
    | none => exact ⟨_, rfl, rfl⟩
    | some proof =>
      obtain ⟨hproof, hdigest⟩ := Option.filter_eq_some_iff.mp hfilter
      obtain ⟨stamped, hstamped, hcovers, hsource⟩ := hstamp proof hproof (by simpa using hdigest)
      simp only [hstamped]
      -- the proof covers the anchor, and an RFC 3161 claim comes with a verified one
      rw [if_neg (not_not.mpr hcovers), if_neg]
      · exact ⟨_, rfl, rfl⟩
      · rintro ⟨hrfc, hnot⟩
        rw [hsource hrfc] at hnot
        cases hnot

/-- **A registered key, a sound signature and a tip in the chain suffice**, and a proof that covers
the entry, where there is one. -/
theorem verifyNotaryEntry_valid {verifier : ChainAnchor} (hread : chain.read = .ok rows)
    (hparse : ∀ r ∈ rows, ∃ v, loads r.payload = .ok v) {reg : KeyRegistry}
    (hreg : verifier.readRegistry store = .ok reg) (hsound : SoundDoc P C rows entry.anchor)
    (hcovers : entry.Covers) (hstamp : entry.Stamped P)
    (hkey : ∀ k, entry.anchor.publicKey = hex k → reg.isRegistered k = true) :
    ∃ v, verifier.verifyNotaryEntry P C entry chain store = .ok v ∧ v.isValid = true := by
  obtain ⟨k, signature, canonical, hpub, hsig, hcan, hverify⟩ := hsound.signed
  obtain ⟨records, hrecords⟩ := getChain_isOk.mpr hparse
  refine verifyNotaryEntry_isValid.mpr ⟨signature, k, reg, canonical, records, ?_, ?_, hreg,
    hkey k hpub, hcan, hverify, (getChain_of_read hread).trans hrecords,
    (any_recordHash hrecords _).mpr (hsound.tip hcovers), hstamp⟩
  · rw [hsig, fromHexE_hex]
  · rw [hpub, fromHexE_hex]

/-- An entry without a proof of the time. -/
theorem stamped_of_plain {e : NotaryEntry} (h : e.timestamp = none) : e.Stamped P := by
  intro proof hproof
  rw [h] at hproof
  cases hproof

/-! ## The invariant -/

theorem KeyEffect.signer_mem {reg reg' : KeyRegistry} {b : SigningBackend}
    (h : KeyEffect P op reg reg' (some b)) : b ∈ op.backends := by
  cases h with
  | anchored | notarized | rotated | recovered => simp [KeyOp.backends]

/-- Only `notarize` logs, and what it logs is then the anchor on file. -/
theorem apply_entry {store' : AnchorStore}
    (h : op.apply P fromisoformat C chain store = (.ok (some entry), store')) :
    ∃ self now, op = .notarize self now ∧ entry.timestamp = none ∧
      store'.anchor = some entry.anchor ∧
      (store.anchor = some entry.anchor ∨ store.anchor = none ∧ ∃ b, self = .signing b ∧
        (ChainAnchor.signing b).signedDoc P chain now = .ok entry.anchor) := by
  cases op with
  | notarize self now =>
    refine ⟨self, now, rfl, ?_⟩
    simp only [KeyOp.apply, ChainAnchor.buildNotaryEntry] at h
    split at h
    · next doc hdoc =>
      simp only [Prod.map, Except.map, id, Prod.mk.injEq, Except.ok.injEq, Option.some.injEq] at h
      obtain ⟨rfl, rfl⟩ := h
      exact ⟨rfl, hdoc, Or.inl hdoc⟩
    · next hnone =>
      unfold ChainAnchor.anchor at h
      cases hsigned : self.signedDoc P chain now with
      | error e => simp [hsigned, Except.map] at h
      | ok doc =>
        simp only [hsigned, Prod.map, Except.map, id, Prod.mk.injEq, Except.ok.injEq,
          Option.some.injEq] at h
        obtain ⟨rfl, rfl⟩ := h
        cases self with
        | verifyOnly k a => cases hsigned
        | signing b => exact ⟨rfl, rfl, Or.inr ⟨hnone, b, rfl, hsigned⟩⟩
  | anchor | rotate | registerRecovery | recover | revoke =>
    have hresult := congrArg Prod.fst h
    simp only [KeyOp.apply, Prod.map_fst] at hresult
    obtain ⟨x, -, hx⟩ := map_eq_ok.mp hresult
    cases hx

/-- The registry loads, the rows parse, what is on file or logged is sound, and the keys of the log
are registered. -/
structure LedgerInv (P : Platform) (C : Crypto) (bootstrap : ChainAnchor) (s : LedgerState)
    (reg : KeyRegistry) : Prop where
  file : Loads s.store reg
  parses : ∀ r ∈ s.db.rows, ∃ v, loads r.payload = .ok v
  anchor : ∀ doc, s.store.anchor = some doc → SoundDoc P C s.db.rows doc
  sound : ∀ e ∈ s.log, SoundDoc P C s.db.rows e.anchor ∧ e.timestamp = none
  registered : ∀ e ∈ s.log, e.Covers → ∀ k, e.anchor.publicKey = hex k →
    (bootstrap.boot reg).isRegistered k = true

variable {bootstrap : ChainAnchor}

/-- An append keeps the invariant: what was a row stays a row. -/
theorem LedgerInv.append {reg : KeyRegistry} (hs : LedgerInv P C bootstrap s reg)
    {call : AppendCall} {ts : Str} {record : AuditRecord} {db : AuditDb}
    (h : insertRow P s.db call ts = .ok (record, db)) :
    LedgerInv P C bootstrap { s with db := db } reg := by
  obtain ⟨hrows, -⟩ := insertRow_spec h
  have hgrow : s.db.rows <+: db.rows := ⟨[record.stored P], hrows.symm⟩
  refine ⟨hs.file, ?_, fun doc hdoc => (hs.anchor doc hdoc).grow hgrow,
    fun e he => ⟨(hs.sound e he).1.grow hgrow, (hs.sound e he).2⟩, hs.registered⟩
  intro r hr
  rw [hrows, List.mem_append, List.mem_singleton] at hr
  rcases hr with hr | rfl
  · exact hs.parses r hr
  · exact ⟨_, loads_stored record.payload⟩

/-- What a call leaves on file. -/
theorem LedgerInv.call {reg : KeyRegistry} (hs : LedgerInv P C bootstrap s reg)
    (hboot : bootstrap.pub ≠ []) (hhonest : ∀ b ∈ op.backends, Honest C b)
    (hkeeps : Keeps P bootstrap s op reg) {result : Except PyError (Option NotaryEntry)}
    (h : op.apply P fromisoformat C (s.chain dbPath) s.store = (result, store)) :
    ∃ reg', LedgerInv P C bootstrap { s with store := store } reg' ∧
      ∀ k, op.KeepsKey P (bootstrap.boot reg) k → (bootstrap.boot reg).isRegistered k = true →
        (bootstrap.boot reg').isRegistered k = true := by
  obtain ⟨reg', signer, heffect, hfile, hanchor⟩ :=
    apply_effect (P := P) (C := C) op (s.chain dbPath) hs.file
  rw [h] at hfile hanchor
  have hkeep : ∀ k, op.KeepsKey P (bootstrap.boot reg) k →
      (bootstrap.boot reg).isRegistered k = true → (bootstrap.boot reg').isRegistered k = true :=
    fun k hk hreg => isRegistered_of_effect hboot heffect hhonest hs.file.recovery_ne hkeeps.founded
      hk hreg
  refine ⟨reg', ⟨hfile, hs.parses, fun doc hdoc => ?_, hs.sound, fun e he hcovers k hk => ?_⟩,
    hkeep⟩
  · rcases hanchor with hsame | ⟨b, now, doc', rfl, hsigned, hdoc'⟩
    · exact hs.anchor doc (hsame ▸ hdoc)
    · obtain rfl : doc = doc' := Option.some.inj (hdoc.symm.trans hdoc')
      exact soundDoc_of_signedDoc (hhonest b heffect.signer_mem) rfl hsigned
  · exact hkeep k (hkeeps.keys e he hcovers k hk) (hs.registered e he hcovers k hk)

/-- **One event keeps the invariant**, where it keeps the keys. -/
theorem LedgerInv.step {t : LedgerState} {reg : KeyRegistry} (hs : LedgerInv P C bootstrap s reg)
    (hboot : bootstrap.pub ≠ []) {e : LedgerEvent} (hhonest : e.Honest C)
    (hkeeps : e.Keeps P bootstrap s) (h : ledgerStep P fromisoformat C dbPath s e = some t) :
    ∃ reg', LedgerInv P C bootstrap t reg' := by
  cases e with
  | append call ts =>
    simp only [ledgerStep] at h
    split at h
    · obtain rfl := Option.some.inj h
      exact ⟨reg, hs⟩
    · next record db hins =>
      obtain rfl := Option.some.inj h
      exact ⟨reg, hs.append hins⟩
  | call op =>
    have hop := hkeeps reg hs.file.load
    simp only [ledgerStep] at h
    split at h
    · next entry store happly =>
      obtain rfl := Option.some.inj h
      obtain ⟨reg', hinv, hkeep⟩ := hs.call hboot hhonest hop happly
      obtain ⟨self, now, rfl, hplain, hfile, horigin⟩ := apply_entry happly
      refine ⟨reg', hinv.file, hinv.parses, hinv.anchor, ?_, ?_⟩
      · rw [List.forall_mem_append, List.forall_mem_singleton]
        exact ⟨hinv.sound, hinv.anchor _ hfile, hplain⟩
      · rw [List.forall_mem_append, List.forall_mem_singleton]
        refine ⟨hinv.registered, fun hcovers k hk => hkeep k trivial ?_⟩
        -- the exported anchor is the one on file, or was just made
        have hexport := hop.exports
        rcases horigin with hold | ⟨hnone, b, rfl, hsigned⟩
        · simp only [KeyOp.ExportsRegistered, hold, Option.map_some, Option.getD_some] at hexport
          exact hexport hcovers k hk
        · simp only [KeyOp.ExportsRegistered, hnone, Option.map_none, Option.getD_none] at hexport
          obtain ⟨_, _, -, -, -, hrec⟩ := signedDoc_eq_ok.mp hsigned
          have hcount := (snapshotOf_signedDoc rfl hsigned).1.count
          exact hexport (hcount ▸ hcovers) k (by rw [← hk, hrec]; rfl)
    · next store happly =>
      obtain rfl := Option.some.inj h
      obtain ⟨reg', hinv, -⟩ := hs.call hboot hhonest hop happly
      exact ⟨reg', hinv⟩

theorem ledgerInv_init : LedgerInv P C bootstrap .init .empty where
  file := loads_none none
  parses _ hr := absurd hr List.not_mem_nil
  anchor _ hdoc := by cases hdoc
  sound _ he := absurd he List.not_mem_nil
  registered _ he := absurd he List.not_mem_nil

theorem LedgerInv.accepted {reg : KeyRegistry} (hs : LedgerInv P C bootstrap s reg) :
    HistoryAccepted P C dbPath bootstrap s := by
  intro e he hcovers verifier hverifier
  obtain ⟨hsound, hplain⟩ := hs.sound e he
  refine verifyNotaryEntry_valid rfl hs.parses (readRegistry_eq hs.file) hsound hcovers
    (stamped_of_plain hplain) fun k hk => ?_
  have hcur : (verifier.boot reg).currentPublicKey = (bootstrap.boot reg).currentPublicKey := by
    refine boot_current_eq fun hnil => ?_
    rcases hverifier with ⟨reg', hreg', hne⟩ | hpub
    · obtain rfl : reg = reg' := Except.ok.inj (hs.file.load.symm.trans hreg')
      exact absurd hnil hne
    · exact hpub
  rw [isRegistered_congr hcur (by simp) (by simp)]
  exact hs.registered e he hcovers k hk

/-- **In a run that keeps its keys, every entry stays accepted**, whichever key signed it and
whichever key verifies. -/
theorem history_accepted (hboot : bootstrap.pub ≠ []) {es : List LedgerEvent} {s : LedgerState}
    (hhonest : ∀ e ∈ es, e.Honest C)
    (hkeeps : Along (ledgerStep P fromisoformat C dbPath)
      (fun t e => e.Keeps P bootstrap t) .init es)
    (h : run (ledgerStep P fromisoformat C dbPath) .init es = some s) :
    HistoryAccepted P C dbPath bootstrap s := by
  obtain ⟨reg, hinv⟩ : ∃ reg, LedgerInv P C bootstrap s reg :=
    run_invariant_along (I := fun t => ∃ reg, LedgerInv P C bootstrap t reg)
      (fun e he _ _ ⟨_, ht⟩ hq hu => ht.step hboot (hhonest e he) hq hu)
      ⟨_, ledgerInv_init⟩ hkeeps h
  exact hinv.accepted

/-! ### Two runs -/

/-- One append, and the entry of the key `[1]` over it. -/
def notarizedRun : List LedgerEvent :=
  [.append ⟨lit "svc", lit "evt", .none⟩ [], .call (.notarize (.signing (.plain [1])) [])]

/-- The state after the events. -/
def ledgerAfter (es : List LedgerEvent) : Option LedgerState :=
  run (ledgerStep .tagged (fun _ => none) .plain []) .init es

/-- The entry stays accepted over a rotation to the key `[3]`. -/
theorem history_accepted_rotated : ∃ s, ledgerAfter (notarizedRun ++
    [.call (.rotate (.signing (.plain [1])) (.plain [3]) [] [])]) = some s ∧ s.log.length = 1 ∧
    HistoryAccepted .tagged .plain [] (.signing (.plain [1])) s := by
  have hrun : (ledgerAfter (notarizedRun ++
      [.call (.rotate (.signing (.plain [1])) (.plain [3]) [] [])])).map (fun s => s.log.length)
      = some 1 := by decide +kernel
  obtain ⟨s, hs, hlen⟩ := Option.map_eq_some_iff.mp hrun
  have hb : ∀ key : Bytes, key ≠ [] → Honest .plain (.plain key) := fun key => honest_plain
  refine ⟨s, hs, hlen, history_accepted (by simp [ChainAnchor.pub, SigningBackend.plain]) ?_ ?_ hs⟩
  · simp [notarizedRun, LedgerEvent.Honest, KeyOp.backends, hb]
  · refine ⟨trivial, fun t ht => ⟨?_, fun u _ => ⟨?_, fun _ _ => trivial⟩⟩⟩
    · have hstore : t.store = ⟨none, none⟩ := by
        simp only [ledgerStep] at ht
        split at ht <;> obtain rfl := Option.some.inj ht <;> rfl
      have hlog : t.log = [] := by
        simp only [ledgerStep] at ht
        split at ht <;> obtain rfl := Option.some.inj ht <;> rfl
      intro reg hreg
      rw [hstore] at hreg
      obtain rfl := Except.ok.inj hreg
      refine ⟨fun h => (by cases h), fun e he => ?_, fun _ k hk => ?_⟩
      · rw [hlog] at he
        cases he
      · rw [hstore] at hk
        obtain rfl := hex_injective hk
        decide
    · exact fun reg _ => ⟨fun _ _ => rfl, fun _ _ _ _ _ => trivial, trivial⟩

/-- The entry of the key `[1]` is no longer accepted after the recovery with the key `[2]`. -/
theorem history_lost_after_recover :
    (ledgerAfter (notarizedRun ++
      [.call (.registerRecovery (.signing (.plain [1])) [2] .ed25519),
        .call (.recover (.signing (.plain [2])) (.plain [2]) [] [])])).map (fun s =>
          s.log.map fun e => (e.anchor.snapshot.recordCount,
            (ChainAnchor.signing (.plain [2])).verifyNotaryEntry .tagged .plain e
            (s.chain []) s.store))
      = some [(1, .ok .unregistered)] := by
  decide +kernel

end Ledger
