import Msb.Ledger.AnchorClassify

/-!
# Who signed and who verifies

A registry with a current key and a recovery key, and an anchor over the live chain that one of
the two has signed. `verify` accepts either key as the signer, but checks the signature under the
key of the verifier, so an anchor holds only for a verifier that was built with the signing key.

* `verify_signer_iff` — the anchor is valid exactly for the key that signed it
-/

namespace Ledger

open Py HashChain

variable {P : Platform} {fromisoformat : IsoParser} {C : Crypto}

/-- The signatures of `b` do not hold under the key given, unless it is its own. -/
def KeyBound (C : Crypto) (b : SigningBackend) (publicKey : Bytes) (algorithm : KeyAlgorithm) :
    Prop :=
  ∀ {message signature}, b.sign message = .ok signature →
    verifySignature C message signature publicKey algorithm = .ok true →
    publicKey = b.publicKey ∧ algorithm = b.algorithm

theorem keyBound_plain (key publicKey : Bytes) (algorithm : KeyAlgorithm) :
    KeyBound .plain (.plain key) publicKey algorithm := by
  intro message signature hsig h
  obtain rfl := Except.ok.inj hsig
  cases algorithm with
  | ed25519 =>
    simp only [verifySignature, Crypto.plain, Except.ok.injEq, decide_eq_true_eq] at h
    exact ⟨(List.append_cancel_right h).symm, rfl⟩
  | other name => cases h
  | secp256r1 | secp384r1 =>
    simp only [verifySignature, Crypto.plain] at h
    split at h <;> cases h

/-- `c` is the current key, `r` the recovery key, and the recovery key is not revoked. -/
structure CurrentAndRecovery (reg : KeyRegistry) (c r : SigningBackend) : Prop where
  current : reg.isCurrent c.publicKey = true
  recovery : reg.isRecovery r.publicKey = true
  unrevoked : reg.isRevoked r.publicKey = false

/-- An anchor over the chain itself is valid when its times can be compared. -/
theorem compareLive_self_iff {b : SigningBackend} {chain : Chain} {now : Str} {doc : AnchorDoc}
    (hdoc : (ChainAnchor.signing b).signedDoc P chain now = .ok doc) {rows : List AuditRow}
    (hread : chain.read = .ok rows) (recoverySigner : Bool) :
    (∃ v, compareLive P fromisoformat chain doc.snapshot recoverySigner = .ok v ∧
        v.isValid = true)
      ↔ ComparableTimes fromisoformat rows now := by
  obtain ⟨_, _, hsnap, -⟩ := signedDoc_eq_ok.mp hdoc
  obtain ⟨m, hm, hsnap⟩ := snapshot_eq_ok.mp hsnap
  obtain ⟨records, hrecords⟩ := ((mark_eq_ok hread).mp hm).1
  rw [compareLive_same ((getChain_of_read hread).trans hrecords) hm (by rw [hsnap]) (by rw [hsnap])
    (by rw [hsnap]) (by rw [hsnap]), ← newerThanAnchor_isOk hrecords, hsnap]
  constructor
  · rintro ⟨v, hv, -⟩
    cases hd : newerThanAnchor fromisoformat records now with
    | error e => simp [hd, Except.map] at hv
    | ok d => exact ⟨d, rfl⟩
  · rintro ⟨d, hd⟩
    exact ⟨_, by rw [hd]; rfl, rfl⟩

/-- **An anchor over the live chain is valid exactly for the key that signed it**, as long as that
key is not revoked and the times can be compared. -/
theorem verify_signer_iff {c r signer : SigningBackend} (hsigner : signer = c ∨ signer = r)
    (hb : Honest C signer) {self : ChainAnchor} (hbound : KeyBound C signer self.pub self.algorithm)
    {store : AnchorStore} {reg : KeyRegistry} (hreg : self.readRegistry store = .ok reg)
    (hkeys : CurrentAndRecovery reg c r) {dbPath now : Str} {rows : List AuditRow} {doc : AnchorDoc}
    (hdoc : (ChainAnchor.signing signer).signedDoc P ⟨dbPath, .ok rows⟩ now = .ok doc)
    (hanchor : store.anchor = some doc) :
    (∃ v, self.verify P fromisoformat C ⟨dbPath, .ok rows⟩ store = .ok v ∧ v.isValid = true)
      ↔ (self.pub = signer.publicKey ∧ self.algorithm = signer.algorithm) ∧
        (signer.publicKey = c.publicKey → reg.isRevoked c.publicKey = false) ∧
        ComparableTimes fromisoformat rows now := by
  rw [← compareLive_self_iff hdoc rfl (reg.isRecovery signer.publicKey)]
  constructor
  · rintro ⟨v, hv, hvalid⟩
    obtain ⟨doc', signature, anchorPub, reg', hdoc', hsig, hkey, hreg', hpass, hlive⟩ :=
      passesChecks_of_verify hv (Or.inl hvalid)
    obtain rfl : doc = doc' := Option.some.inj (hanchor.symm.trans hdoc')
    obtain rfl : reg = reg' := Except.ok.inj (hreg.symm.trans hreg')
    obtain ⟨canonical, signature', -, hcan, hsign, hrec⟩ := signedDoc_eq_ok.mp hdoc
    have hpub : anchorPub = signer.publicKey := by
      rw [hrec, fromHexE_hex] at hkey
      exact (Except.ok.inj hkey).symm
    have hsignature : signature = signature' := by
      rw [hrec, fromHexE_hex] at hsig
      exact (Except.ok.inj hsig).symm
    subst hpub hsignature
    -- the signature was checked under the verifier's own key
    have hcheck := hpass.signature
    rw [ChainAnchor.checkSignature, hcan] at hcheck
    refine ⟨hbound hsign hcheck, fun heq => ?_, v, hlive, hvalid⟩
    rw [← heq]
    exact hpass.authorized.unrevoked
  · rintro ⟨⟨hpub, halg⟩, hrevoked, v, hlive, hvalid⟩
    have hauth : Authorized reg signer.publicKey := by
      rcases hsigner with rfl | rfl
      · exact ⟨Or.inl hkeys.current, hrevoked rfl⟩
      · exact ⟨Or.inr hkeys.recovery, hkeys.unrevoked⟩
    obtain ⟨signature, hsig, hkey, hpass⟩ := passesChecks_own hb hdoc hpub halg hauth
    exact ⟨v, by rw [verify_eq_compareLive hanchor hsig hkey hreg hpass]; exact hlive, hvalid⟩

/-- The registry file with current key `[1]` and recovery key `[2]`. -/
def twoKeys : RegistryDoc :=
  KeyRegistry.save ⟨[1], .ed25519, some [2], some .ed25519, [], []⟩

theorem readRegistry_twoKeys (self : ChainAnchor) (doc : Option AnchorDoc) :
    self.readRegistry ⟨doc, some twoKeys⟩
      = .ok ⟨[1], .ed25519, some [2], some .ed25519, [], []⟩ := by
  rw [ChainAnchor.readRegistry, twoKeys, load_save]
  rfl

/-- The recovery key signs and verifies. -/
theorem verify_signer_recovery : ∃ doc v,
    (ChainAnchor.signing (.plain [2])).signedDoc .tagged ⟨[], .ok []⟩ [] = .ok doc ∧
    (ChainAnchor.signing (.plain [2])).verify .tagged (fun _ => none) .plain ⟨[], .ok []⟩
      ⟨some doc, some twoKeys⟩ = .ok v ∧ v.isValid = true := by
  have hsome : ((ChainAnchor.signing (.plain [2])).signedDoc .tagged
      ⟨[], .ok []⟩ []).toOption.isSome = true := by decide +kernel
  obtain ⟨doc, hdoc⟩ := Option.isSome_iff_exists.mp hsome
  rw [toOption_eq_some] at hdoc
  have hb : Honest .plain (.plain [2]) := honest_plain (by simp)
  have hkeys : CurrentAndRecovery ⟨[1], .ed25519, some [2], some .ed25519, [], []⟩
    (.plain [1]) (.plain [2]) := ⟨by decide, by decide, by decide⟩
  have htimes : ComparableTimes (fun _ => none) [] [] := fun newest h => by cases h
  obtain ⟨v, hv⟩ := (verify_signer_iff (Or.inr rfl) hb (keyBound_plain [2] [2] .ed25519)
    (readRegistry_twoKeys (.signing (.plain [2])) (some doc)) hkeys hdoc rfl).mpr
    ⟨⟨rfl, rfl⟩, fun _ => by decide, htimes⟩
  exact ⟨doc, v, hdoc, hv⟩

/-- The recovery key signs, and the current key verifies: the signature is reported as invalid. -/
theorem verify_recovery_by_current : ∃ doc,
    CurrentAndRecovery ⟨[1], .ed25519, some [2], some .ed25519, [], []⟩
      (.plain [1]) (.plain [2]) ∧
    (ChainAnchor.signing (.plain [2])).signedDoc .tagged ⟨[], .ok []⟩ [] = .ok doc ∧
    (ChainAnchor.signing (.plain [1])).verify .tagged (fun _ => none) .plain ⟨[], .ok []⟩
      ⟨some doc, some twoKeys⟩ = .ok (.badSignature genesisHash) := by
  have hrun : (((ChainAnchor.signing (.plain [2])).signedDoc .tagged ⟨[], .ok []⟩
      []).toOption.bind fun doc =>
        ((ChainAnchor.signing (.plain [1])).verify .tagged (fun _ => none) .plain ⟨[], .ok []⟩
          ⟨some doc, some twoKeys⟩).toOption) = some (.badSignature genesisHash) := by
    decide +kernel
  obtain ⟨doc, hdoc, hverify⟩ := Option.bind_eq_some_iff.mp hrun
  rw [toOption_eq_some] at hdoc hverify
  exact ⟨doc, ⟨by decide, by decide, by decide⟩, hdoc, hverify⟩

end Ledger
