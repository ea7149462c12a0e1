import Msb.Ledger.Notary

/-!
# Timestamps of notary entries

`verify_notary_entry` on entries of any shape, and what it asks of their `timestamp`. The entry is
JSON that anyone with access to the log can write; the signature covers the snapshot only.

* `verifyEntry_of_vouched` — after key, signature and tip the timestamp decides
* `stampClosed_iff` — when a timestamp that proves nothing is refused
-/

namespace Ledger

open Py

variable (P : Platform) (C : Crypto)

/-- The bytes that were stamped: the entry without its `timestamp`. -/
def stampedBytes (items : List (PyKey × PyVal)) : Except PyError Bytes :=
  canonicalBytes P (.dict (items.filter fun p => p.1 ≠ .str (lit "timestamp")))

/-- The entry passes everything that is checked before its timestamp: it has a snapshot with a tip
in the live chain, signed by a registered key. -/
def Vouched (self : ChainAnchor) (items : List (PyKey × PyVal)) (chain : Chain)
    (store : AnchorStore) (tip : PyVal) (recordCount : Option PyVal) : Prop :=
  ∃ anchor snapshot signature pub reg canonical found records,
    getItem items (lit "anchor") = some (.dict anchor) ∧
    getItem anchor (lit "snapshot") = some snapshot ∧
    hexField (getItem anchor (lit "signature")) = .ok signature ∧
    hexField (getItem anchor (lit "public_key")) = .ok pub ∧
    self.readRegistry store = .ok reg ∧ reg.isRegistered pub = true ∧
    canonicalBytes P snapshot = .ok canonical ∧
    verifySignature C canonical signature pub
      (algorithmField (getItem anchor (lit "key_algorithm"))) = .ok true ∧
    pyGet snapshot (lit "tip_hash") = .ok found ∧ tip = found.getD (.str []) ∧
    chain.getChain = .ok records ∧ (records.any fun r => isText tip r.recordHash) = true ∧
    pyGet snapshot (lit "record_count") = .ok recordCount

/-- Whether a stored token is an RFC 3161 token over the digest, signed by its authority. -/
abbrev TokenCheck := Option PyVal → Bytes → Prop

variable (tokenValid : TokenCheck)

/-- The timestamp `t` proves the time of the entry, or says that it is only the time of receipt: its
digest is the one of the entry, its source is known, and a token of an authority validates. -/
def Proves (items : List (PyKey × PyVal)) (t : PyVal) : Prop :=
  ∃ ts digest source stamped, t = .dict ts ∧ stampedBytes P items = .ok stamped ∧
    getItem ts (lit "digest_sha256") = some digest ∧ isText digest (P.hexdigest stamped) = true ∧
    getItem ts (lit "source") = some source ∧
    (isText source (lit "receive_time") = true ∨ isText source (lit "rfc3161") = true ∧
      tokenValid (getItem ts (lit "token_b64")) (P.sha256 stamped))

/-- Fail-closed: an entry with a timestamp is accepted only where the timestamp proves something. -/
def StampClosed (self : ChainAnchor) (items : List (PyKey × PyVal)) (chain : Chain)
    (store : AnchorStore) : Prop :=
  ∀ t v, getItem items (lit "timestamp") = some t → t ≠ .none →
    self.verifyEntry P C (.dict items) chain store = .ok v → v.isValid = true →
    Proves P tokenValid items t

/-- The timestamps that the check deals with: objects with a digest. Where the digest is the one of
the entry, the source is one of the two that are written, and a proof that calls itself verified
has a token that validates. -/
def Answerable (items : List (PyKey × PyVal)) (t : PyVal) : Prop :=
  ∃ ts digest, t = .dict ts ∧ getItem ts (lit "digest_sha256") = some digest ∧
    truthy digest = true ∧
    ∀ stamped source, stampedBytes P items = .ok stamped →
      isText digest (P.hexdigest stamped) = true → getItem ts (lit "source") = some source →
      isText source (lit "receive_time") = true ∨ isText source (lit "rfc3161") = true ∧
        (truthy ((getItem ts (lit "verified")).getD (.bool false)) = true →
          tokenValid (getItem ts (lit "token_b64")) (P.sha256 stamped))

section

variable {P C tokenValid}

/-! ## Before the timestamp -/

variable {self : ChainAnchor} {items : List (PyKey × PyVal)} {chain : Chain} {store : AnchorStore}
  {recordCount : Option PyVal}

/-- **After key, signature and tip the timestamp decides.** -/
theorem verifyEntry_of_vouched {tip : PyVal}
    (h : Vouched P C self items chain store tip recordCount) :
    self.verifyEntry P C (.dict items) chain store = checkStamp P items tip recordCount := by
  obtain ⟨anchor, snapshot, signature, pub, reg, canonical, found, records, hanchor, hsnapshot,
    hsignature, hpub, hreg, hregistered, hcanonical, hverify, htip, rfl, hchain, hfound, hcount⟩ :=
    h
  simp only [ChainAnchor.verifyEntry, hanchor, hsnapshot, ChainAnchor.checkEntry, hsignature, hpub,
    hreg, hregistered, hcanonical, hverify, htip, hchain, hfound, hcount, bind, Except.bind,
    Bool.not_true, Bool.false_eq_true, if_false]

/-- What `checkEntry` has checked when it accepts. -/
theorem vouched_of_checkEntry {anchor : List (PyKey × PyVal)} {snapshot : PyVal} {v : EntryVerdict}
    (hanchor : getItem items (lit "anchor") = some (.dict anchor))
    (hsnapshot : getItem anchor (lit "snapshot") = some snapshot)
    (h : self.checkEntry P C items anchor snapshot chain store = .ok v)
      (hvalid : v.isValid = true) :
    ∃ tip recordCount, Vouched P C self items chain store tip recordCount := by
  unfold ChainAnchor.checkEntry at h
  obtain ⟨signature, hsignature, h⟩ := bind_eq_ok.mp h
  obtain ⟨pub, hpub, h⟩ := bind_eq_ok.mp h
  obtain ⟨reg, hreg, h⟩ := bind_eq_ok.mp h
  by_cases hregistered : reg.isRegistered pub = true
  · rw [if_neg (by simp [hregistered])] at h
    obtain ⟨canonical, hcanonical, h⟩ := bind_eq_ok.mp h
    by_cases hverify : verifySignature C canonical signature pub
        (algorithmField (getItem anchor (lit "key_algorithm"))) = .ok true
    · simp only [hverify, Bool.not_true, Bool.false_eq_true, if_false] at h
      obtain ⟨found, htip, h⟩ := bind_eq_ok.mp h
      obtain ⟨records, hchain, h⟩ := bind_eq_ok.mp h
      by_cases hfound : (records.any fun r => isText (found.getD (.str [])) r.recordHash) = true
      · simp only [hfound, Bool.not_true, Bool.false_eq_true, if_false] at h
        obtain ⟨count, hcount, -⟩ := bind_eq_ok.mp h
        exact ⟨_, count, anchor, snapshot, signature, pub, reg, canonical, found, records,
          hanchor, hsnapshot, hsignature, hpub, hreg, hregistered, hcanonical, hverify,
          htip, rfl, hchain, hfound, hcount⟩
      · rw [Bool.not_eq_true] at hfound
        simp only [hfound, Bool.not_false, if_true, Except.ok.injEq] at h
        subst h
        cases hvalid
    · -- a signature that does not hold, or that cannot be checked
      cases hresult : verifySignature C canonical signature pub
          (algorithmField (getItem anchor (lit "key_algorithm"))) with
      | error e =>
        simp only [hresult, Bool.not_false, if_true, Except.ok.injEq] at h
        subst h
        cases hvalid
      | ok holds =>
        cases holds with
        | true => exact absurd hresult hverify
        | false =>
          simp only [hresult, Bool.not_false, if_true, Except.ok.injEq] at h
          subst h
          cases hvalid
  · rw [if_pos (by simp [hregistered])] at h
    obtain rfl := Except.ok.inj h
    cases hvalid

/-- An accepted entry has passed the checks before its timestamp. -/
theorem vouched_of_valid {v : EntryVerdict}
    (h : self.verifyEntry P C (.dict items) chain store = .ok v) (hvalid : v.isValid = true) :
    ∃ tip recordCount, Vouched P C self items chain store tip recordCount := by
  simp only [ChainAnchor.verifyEntry] at h
  split at h
  next anchor hanchor =>
    split at h
    next snapshot hsnapshot => exact vouched_of_checkEntry hanchor hsnapshot h hvalid
    next =>
      obtain rfl := Except.ok.inj h
      cases hvalid
  next =>
    obtain rfl := Except.ok.inj h
    cases hvalid

/-! ## The timestamp -/

/-- What the check of the timestamp accepts besides an answerable one: what it does not look at. -/
theorem checkStamp_unchecked {t tip : PyVal} (ht : getItem items (lit "timestamp") = some t)
    (h : ∀ ts, t = .dict ts → (getItem ts (lit "digest_sha256")).filter truthy = none) :
    checkStamp P items tip recordCount = .ok (.valid tip recordCount none) := by
  unfold checkStamp
  rw [ht]
  cases t with
  | dict ts => simp only [h ts rfl]
  | _ => rfl

/-- The check of a timestamp with a digest. -/
theorem checkStamp_digest {ts : List (PyKey × PyVal)} {digest tip : PyVal}
    (ht : getItem items (lit "timestamp") = some (.dict ts))
    (hdigest : getItem ts (lit "digest_sha256") = some digest) (htruthy : truthy digest = true) :
    (∃ v, checkStamp P items tip recordCount = .ok v ∧ v.isValid = true) ↔
      ∃ source stamped, getItem ts (lit "source") = some source ∧
        stampedBytes P items = .ok stamped ∧ isText digest (P.hexdigest stamped) = true ∧
        ¬ (isText source (lit "rfc3161") = true ∧
          truthy ((getItem ts (lit "verified")).getD (.bool false)) = false) := by
  have hfilter : (some digest).filter truthy = some digest := by simp [htruthy]
  unfold checkStamp
  rw [ht]
  simp only [hdigest, hfilter]
  cases hsource : getItem ts (lit "source") with
  | none => simp
  | some source =>
    cases hstamped : stampedBytes P items with
    | error e =>
      unfold stampedBytes at hstamped
      simp only [hstamped, bind, Except.bind]
      simp
    | ok stamped =>
      unfold stampedBytes at hstamped
      simp only [hstamped, bind, Except.bind]
      by_cases htext : isText digest (P.hexdigest stamped) = true
      · by_cases hclaim : isText source (lit "rfc3161") = true ∧
            truthy ((getItem ts (lit "verified")).getD (.bool false)) = false
        · simp [htext, hclaim.1, hclaim.2, EntryVerdict.isValid]
        · have hclaim' : ¬ (isText source (lit "rfc3161") = true ∧
              (!truthy ((getItem ts (lit "verified")).getD (.bool false))) = true) := by
            simpa using hclaim
          simp only [htext, Bool.not_true, Bool.false_eq_true, if_false, if_neg hclaim',
            Except.ok.injEq, exists_eq_left', EntryVerdict.isValid, Option.some.injEq,
            true_and, exists_and_left, true_iff]
          exact hclaim
      · rw [Bool.not_eq_true] at htext
        simp [htext, EntryVerdict.isValid]

/-- **When a timestamp that proves nothing is refused.** It is where the entry is refused for
another reason, or where its timestamp is answerable. -/
theorem stampClosed_iff (hdigest : ∀ b, P.sha256 b ≠ []) (self : ChainAnchor)
    (items : List (PyKey × PyVal)) (chain : Chain) (store : AnchorStore) :
    StampClosed P C tokenValid self items chain store ↔
      ∀ t tip recordCount, getItem items (lit "timestamp") = some t → t ≠ .none →
        Vouched P C self items chain store tip recordCount → Answerable P tokenValid items t := by
  constructor
  · intro hclosed t tip recordCount ht hpresent hvouched
    have hentry := verifyEntry_of_vouched hvouched
    by_cases hlooked : ∃ ts digest, t = .dict ts ∧
        getItem ts (lit "digest_sha256") = some digest ∧ truthy digest = true
    · obtain ⟨ts, digest, rfl, hget, htruthy⟩ := hlooked
      refine ⟨ts, digest, rfl, hget, htruthy, fun stamped source hstamped htext hsource => ?_⟩
      -- an unverified RFC 3161 claim is what the check itself refuses
      by_cases hclaim : isText source (lit "rfc3161") = true ∧
          truthy ((getItem ts (lit "verified")).getD (.bool false)) = false
      · refine .inr ⟨hclaim.1, fun hverified => ?_⟩
        rw [hclaim.2] at hverified
        cases hverified
      · obtain ⟨v, hv, hvalid⟩ := (checkStamp_digest ht hget htruthy).mpr
          ⟨source, stamped, hsource, hstamped, htext, hclaim⟩
        obtain ⟨_, _, _, _, hts, hstamped', -, -, hsource', hproof⟩ :=
          hclosed _ v ht hpresent (hentry.trans hv) hvalid
        obtain rfl := PyVal.dict.inj hts
        rw [hstamped] at hstamped'
        rw [hsource] at hsource'
        obtain rfl := Except.ok.inj hstamped'
        obtain rfl := Option.some.inj hsource'
        exact hproof.imp_right fun h => ⟨h.1, fun _ => h.2⟩
    · -- what is not looked at is accepted
      have hunchecked : ∀ ts, t = .dict ts →
          (getItem ts (lit "digest_sha256")).filter truthy = none := by
        intro ts hts
        cases hget : getItem ts (lit "digest_sha256") with
        | none => rfl
        | some digest =>
          by_cases htruthy : truthy digest = true
          · exact absurd ⟨ts, digest, hts, hget, htruthy⟩ hlooked
          · simp [htruthy]
      obtain ⟨ts, digest, source, stamped, hts, -, hget, htext, -, -⟩ :=
        hclosed t _ ht hpresent (hentry.trans (checkStamp_unchecked ht hunchecked)) rfl
      have htruthy : truthy digest = true := by
        rw [isText_iff] at htext
        rw [htext]
        have hne := hdigest stamped
        cases hsha : P.sha256 stamped with
        | nil => exact absurd hsha hne
        | cons x b => simp [truthy, Platform.hexdigest, hsha, hex]
      exact absurd ⟨ts, digest, hts, hget, htruthy⟩ hlooked
  · intro hall t v ht hpresent hv hvalid
    obtain ⟨tip, recordCount, hvouched⟩ := vouched_of_valid hv hvalid
    obtain ⟨ts, digest, rfl, hget, htruthy, hanswer⟩ := hall t tip recordCount ht hpresent hvouched
    rw [verifyEntry_of_vouched hvouched] at hv
    obtain ⟨source, stamped, hsource, hstamped, htext, hclaim⟩ :=
      (checkStamp_digest ht hget htruthy).mp ⟨v, hv, hvalid⟩
    refine ⟨ts, digest, source, stamped, rfl, hstamped, hget, htext, hsource, ?_⟩
    refine (hanswer stamped source hstamped htext hsource).imp_right fun h => ⟨h.1, h.2 ?_⟩
    by_contra hverified
    exact hclaim ⟨h.1, by simpa using hverified⟩

end

/-! ## An entry with an empty timestamp -/

/-- A chain with one row. -/
def stampedChain : Chain :=
  ⟨[], .ok [⟨1, lit "svc", lit "evt", lit "null", [], genesisHash, lit "tip"⟩]⟩

/-- A snapshot of its tip, and the anchor that signs it. -/
def stampedAnchor : PyVal :=
  let snapshot : PyVal := .dict [(.str (lit "tip_hash"), .str (lit "tip"))]
  let canonical := (canonicalBytes .tagged snapshot).toOption.getD []
  .dict [(.str (lit "snapshot"), snapshot), (.str (lit "signature"), .str (hex (1 :: canonical))),
    (.str (lit "public_key"), .str (hex [1]))]

/-- An entry whose timestamp is an empty object. -/
def emptyStamp : List (PyKey × PyVal) :=
  [(.str (lit "anchor"), stampedAnchor), (.str (lit "timestamp"), .dict [])]

/-- The entry with the empty timestamp has the condition for it: it is not met. -/
theorem stampClosed_iff_emptyStamp :
    StampClosed .tagged .plain (fun _ _ => False) (.verifyOnly [1] .ed25519) emptyStamp stampedChain
        ⟨none, none⟩ ↔
      ∀ t tip recordCount, getItem emptyStamp (lit "timestamp") = some t → t ≠ .none →
        Vouched .tagged .plain (.verifyOnly [1] .ed25519) emptyStamp stampedChain ⟨none, none⟩ tip
          recordCount → Answerable .tagged (fun _ _ => False) emptyStamp t :=
  stampClosed_iff (by simp [Platform.tagged]) _ _ _ _

/-- An empty timestamp is accepted. -/
theorem emptyStamp_accepted : ¬ ∀ (P : Platform) (C : Crypto) (tokenValid : TokenCheck)
    (self : ChainAnchor) (items : List (PyKey × PyVal)) (chain : Chain) (store : AnchorStore),
    StampClosed P C tokenValid self items chain store := by
  intro h
  have haccepted : ∃ v, (ChainAnchor.verifyOnly [1] .ed25519).verifyEntry .tagged .plain
      (.dict emptyStamp) stampedChain ⟨none, none⟩ = .ok v ∧ v.isValid = true := by
    refine ⟨.valid (.str (lit "tip")) none none, ?_, rfl⟩
    rfl
  obtain ⟨v, hv, hvalid⟩ := haccepted
  obtain ⟨ts, digest, -, -, hts, -, hdigest, -⟩ := h .tagged .plain (fun _ _ => False)
    (.verifyOnly [1] .ed25519) emptyStamp stampedChain ⟨none, none⟩ (.dict []) v rfl (by simp) hv
    hvalid
  obtain rfl := PyVal.dict.inj hts
  simp [getItem] at hdigest

end Ledger
