import Msb.Ledger.KeyRegistry
import Msb.Ledger.Merkle

/-!
# The chain anchor

`ChainAnchor` of `chain_anchor.py`: a signed snapshot of the tip of the chain, kept in a file next
to the database, the check of the live chain against it, and the operations on the key registry.

* `ChainAnchor.verify` — the checks of the key and the signature, then `compareLive`
* `compareLive` — the verdict on the live chain
-/

namespace Ledger

open Py HashChain

/-! ## Time -/

/-- A `datetime`: whether it has a time zone, and its microseconds (in UTC where it has one). -/
structure IsoTime where
  aware : Bool
  micros : Int
  deriving DecidableEq

/-- `datetime.fromisoformat`; `none` is `ValueError`. -/
abbrev IsoParser := Str → Option IsoTime

/-- `s.replace("Z", "+00:00")` -/
def replaceZ (s : Str) : Str := s.flatMap fun c => if c = 90 then lit "+00:00" else [c]

/-! ## Snapshots -/

/-- The rows as a query returns them, or the text of the `DatabaseError` it raised, and the
resolved path of the database. -/
structure Chain where
  dbPath : Str
  read : Except Str (List AuditRow)

/-- `chain.get_chain()` -/
def Chain.getChain (chain : Chain) : Except PyError (List AuditRecord) :=
  match chain.read with
  | .error message => .error (.databaseError message)
  | .ok rows => Ledger.getChain rows

/-- The part of a snapshot that is taken from the rows. -/
structure TipMark where
  seq : Int
  recordCount : Nat
  tipHash : Str
  merkleRoot : Str
  chainSha256 : Str
  deriving DecidableEq

/-- A signed snapshot. Anchors of an older version have no `merkle_root`. -/
structure Snapshot where
  version : Int
  dbPath : Str
  seq : Int
  recordCount : Nat
  tipHash : Str
  merkleRoot : Option Str
  chainSha256 : Str
  anchoredAt : Str
  deriving DecidableEq

/-- `"\n".join(hashes)` -/
def joinLines : List Str → Str
  | [] => []
  | [s] => s
  | s :: ss => s ++ 10 :: joinLines ss

/-- The fields of `_snapshot` that come from the records. -/
def tipMark (P : Platform) (records : List AuditRecord) : Except PyError TipMark := do
  let tipHash := (records.getLast?.map AuditRecord.recordHash).getD genesisHash
  let seq := (records.getLast?.map AuditRecord.seq).getD 0
  let recordHashes := records.map AuditRecord.recordHash
  let chainSha ← encodeE (joinLines recordHashes)
  let root ← merkleRoot P recordHashes
  .ok ⟨seq, records.length, tipHash, root, P.hexdigest chainSha⟩

/-- The live part of `_snapshot`. -/
def Chain.mark (P : Platform) (chain : Chain) : Except PyError TipMark := do
  tipMark P (← chain.getChain)

/-- `_snapshot` -/
def snapshot (P : Platform) (chain : Chain) (now : Str) : Except PyError Snapshot := do
  let mark ← chain.mark P
  .ok ⟨1, chain.dbPath, mark.seq, mark.recordCount, mark.tipHash, some mark.merkleRoot,
    mark.chainSha256, now⟩

def Snapshot.dict (s : Snapshot) : PyVal :=
  .dict ([(.str (lit "version"), .int s.version), (.str (lit "db_path"), .str s.dbPath),
    (.str (lit "seq"), .int s.seq), (.str (lit "record_count"), .int s.recordCount),
    (.str (lit "tip_hash"), .str s.tipHash)] ++
    (s.merkleRoot.map fun root => (PyKey.str (lit "merkle_root"), PyVal.str root)).toList ++
    [(.str (lit "chain_sha256"), .str s.chainSha256),
      (.str (lit "anchored_at"), .str s.anchoredAt)])

/-! ## The anchor object -/

/-- A `ChainAnchor`: with a backend it signs, with a public key alone it only verifies. -/
inductive ChainAnchor where
  | signing (backend : SigningBackend)
  | verifyOnly (publicKey : Bytes) (algorithm : KeyAlgorithm)

/-- `_pub` -/
def ChainAnchor.pub : ChainAnchor → Bytes
  | .signing b => b.publicKey
  | .verifyOnly k _ => k

def ChainAnchor.algorithm : ChainAnchor → KeyAlgorithm
  | .signing b => b.algorithm
  | .verifyOnly _ a => a

/-- The content of `chain_anchor.json`, signature and key in hexadecimal. -/
structure AnchorDoc where
  snapshot : Snapshot
  signature : Str
  publicKey : Str
  keyAlgorithm : Option KeyAlgorithm
  deriving DecidableEq

/-- The two files next to the database. -/
structure AnchorStore where
  anchor : Option AnchorDoc
  registry : Option RegistryDoc
  deriving DecidableEq

def verifyOnlyError (what : Str) : PyError := .valueError (lit "verify-only anchor cannot " ++ what)

/-- The record that `anchor` writes. -/
def ChainAnchor.signedDoc (P : Platform) (self : ChainAnchor) (chain : Chain) (now : Str) :
    Except PyError AnchorDoc :=
  match self with
  | .verifyOnly _ _ => .error (verifyOnlyError (lit "sign new snapshots"))
  | .signing backend => do
    let snap ← snapshot P chain now
    let canonical ← canonicalBytes P snap.dict
    let signature ← backend.sign canonical
    .ok ⟨snap, hex signature, hex backend.publicKey, some backend.algorithm⟩

/-- `ChainAnchor.anchor` -/
def ChainAnchor.anchor (P : Platform) (self : ChainAnchor) (chain : Chain) (now : Str)
    (store : AnchorStore) : Except PyError AnchorDoc × AnchorStore :=
  match self.signedDoc P chain now with
  | .error e => (.error e, store)
  | .ok doc => (.ok doc, { store with anchor := some doc })

/-! ## Verification -/

/-- What `verify` returns, one constructor for each `return`. Times are in microseconds. -/
inductive AnchorVerdict where
  | missing
  | unauthorized (anchoredTip : Str)
  | revoked (anchoredTip : Str)
  | otherKey (anchoredTip : Str)
  | algorithmMismatch (recorded own : KeyAlgorithm) (anchoredTip : Str)
  | badSignature (anchoredTip : Str)
  | unreadable (message anchoredTip : Str) (anchoredSeq : Int)
  | stale (staleMicros : Int) (anchoredTip : Str) (anchoredSeq : Int) (liveTip : Str)
    (liveSeq : Int)
  | replaced (anchoredTip : Str) (anchoredSeq : Int) (liveTip : Str) (liveSeq : Int)
  | fingerprintMismatch (anchored live : Str)
  | merkleMismatch (anchored live : Str)
  | valid (recordCount : Nat) (tipHash anchoredAt : Str) (staleMicros : Int) (recoverySigner : Bool)
  deriving DecidableEq

namespace AnchorVerdict

/-- `verdict["valid"]` -/
def isValid : AnchorVerdict → Bool
  | .valid .. => true
  | _ => false

/-- `verdict.get("stale", False)` -/
def isStale : AnchorVerdict → Bool
  | .stale .. => true
  | .valid _ _ _ staleMicros _ => 0 < staleMicros
  | _ => false

/-- The verdict that reports a replacement or a rollback. -/
def isReplaced : AnchorVerdict → Bool
  | .replaced .. => true
  | _ => false

/-- `verdict.get("reason")` -/
def reason : AnchorVerdict → Option Str
  | .missing => some (lit "no external chain anchor exists")
  | .unauthorized _ =>
    some (lit "anchor public key is not the registry's current key or recovery key")
  | .revoked _ => some (lit "anchor signed by a REVOKED key")
  | .otherKey _ => some (lit "anchor public key does not match the verifying key")
  | .algorithmMismatch recorded own _ =>
    some (lit "anchor key algorithm mismatch: " ++ recorded.text ++ lit " != " ++ own.text)
  | .badSignature _ => some (lit "anchor signature invalid — anchor file tampered")
  | .unreadable message _ _ =>
    some (lit "whole-DB replacement or unreadable audit store — " ++ message)
  | .stale _ _ anchoredSeq _ liveSeq =>
    some (lit "anchor is STALE — " ++ (intLit (liveSeq - anchoredSeq)).text ++
      lit " newer records not covered (re-anchoring stopped)")
  | .replaced .. =>
    some (lit "chain tip does not match external anchor — whole-DB replacement or rollback " ++
      lit "detected (T7)")
  | .fingerprintMismatch .. => some (lit "chain fingerprint mismatch")
  | .merkleMismatch .. => some (lit "merkle root mismatch — chain content changed under the anchor")
  | .valid .. => none

end AnchorVerdict

/-- The difference of two times; subtracting a naive time from an aware one raises. -/
def isoDiff (a b : IsoTime) : Except PyError Int :=
  if a.aware = b.aware then .ok (a.micros - b.micros) else .error .typeError

/-- `_chain_newer_than_anchor`, in microseconds. -/
def newerThanAnchor (fromisoformat : IsoParser) (records : List AuditRecord) (anchoredAt : Str) :
    Except PyError Int :=
  match records.getLast? with
  | none => .ok 0
  | some newest =>
    match fromisoformat (replaceZ anchoredAt), fromisoformat (replaceZ newest.timestamp) with
    | some a, some n => (isoDiff n a).map (max 0)
    | _, _ => .ok 0

section

variable (P : Platform) (fromisoformat : IsoParser)

/-- The last part of `verify`: the live chain against the snapshot. -/
def compareLive (chain : Chain) (snap : Snapshot) (recoverySigner : Bool) :
    Except PyError AnchorVerdict :=
  match chain.mark P with
  | .error (.databaseError message) => .ok (.unreadable message snap.tipHash snap.seq)
  | .error e => .error e
  | .ok live =>
    if live.tipHash ≠ snap.tipHash ∨ live.seq ≠ snap.seq then do
      let records ← chain.getChain
      let anchoredTipInLive := records.any fun r => r.recordHash = snap.tipHash
      -- the tip is still there: records were appended after the anchor
      if anchoredTipInLive ∧ snap.seq < live.seq then do
        let staleMicros ← newerThanAnchor fromisoformat records snap.anchoredAt
        .ok (.stale staleMicros snap.tipHash snap.seq live.tipHash live.seq)
      else .ok (.replaced snap.tipHash snap.seq live.tipHash live.seq)
    else if live.chainSha256 ≠ snap.chainSha256 then
      .ok (.fingerprintMismatch snap.chainSha256 live.chainSha256)
    else
      match snap.merkleRoot.filter fun root => live.merkleRoot ≠ root with
      | some root => .ok (.merkleMismatch root live.merkleRoot)
      | none => do
        let records ← chain.getChain
        let staleMicros ← newerThanAnchor fromisoformat records snap.anchoredAt
        .ok (.valid live.recordCount live.tipHash snap.anchoredAt staleMicros recoverySigner)

/-- `_registry` on a read path: without a registry, the own key counts as current. -/
def ChainAnchor.readRegistry (self : ChainAnchor) (store : AnchorStore) :
    Except PyError KeyRegistry := do
  let reg ← KeyRegistry.load store.registry
  if reg.currentPublicKey = [] then
    .ok { reg with currentPublicKey := self.pub, algorithm := self.algorithm }
  else .ok reg

variable (C : Crypto)

/-- `_verify_signature`: under the own key and algorithm. -/
def ChainAnchor.checkSignature (self : ChainAnchor) (snap : Snapshot) (signature : Bytes) :
    Except PyError Bool := do
  verifySignature C (← canonicalBytes P snap.dict) signature self.pub self.algorithm

/-- `anchor.get("key_algorithm", ED25519)` -/
def AnchorDoc.recordedAlgorithm (d : AnchorDoc) : KeyAlgorithm := d.keyAlgorithm.getD .ed25519

/-- The checks of `verify` on the key and the signature: `none` when all of them pass. -/
def ChainAnchor.checkAnchor (self : ChainAnchor) (reg : KeyRegistry) (anchor : AnchorDoc)
    (signature anchorPub : Bytes) : Except PyError (Option AnchorVerdict) :=
  if !(reg.isCurrent anchorPub || reg.isRecovery anchorPub) then
    .ok (some (.unauthorized anchor.snapshot.tipHash))
  else if reg.isRevoked anchorPub then .ok (some (.revoked anchor.snapshot.tipHash))
  else if anchorPub ≠ self.pub ∧ !reg.isRecovery anchorPub then
    .ok (some (.otherKey anchor.snapshot.tipHash))
  else if anchor.recordedAlgorithm ≠ self.algorithm ∧
      some anchor.recordedAlgorithm ≠ reg.recoveryAlgorithm then
    .ok (some (.algorithmMismatch anchor.recordedAlgorithm self.algorithm anchor.snapshot.tipHash))
  else do
    let holds ← self.checkSignature P C anchor.snapshot signature
    .ok (if holds then none else some (.badSignature anchor.snapshot.tipHash))

/-- `ChainAnchor.verify` -/
def ChainAnchor.verify (self : ChainAnchor) (chain : Chain) (store : AnchorStore) :
    Except PyError AnchorVerdict :=
  match store.anchor with
  | none => .ok .missing
  | some anchor => do
    let signature ← fromHexE anchor.signature
    let anchorPub ← fromHexE anchor.publicKey
    let reg ← self.readRegistry store
    match ← self.checkAnchor P C reg anchor signature anchorPub with
    | some refusal => .ok refusal
    | none => compareLive P fromisoformat chain anchor.snapshot (reg.isRecovery anchorPub)

end

/-! ## Operations on the keys -/

section

variable (P : Platform) (fromisoformat : IsoParser) (C : Crypto)

/-- `_registry(bootstrap=True)`: without a registry, the own key is written as current. -/
def ChainAnchor.bootRegistry (self : ChainAnchor) (store : AnchorStore) :
    Except PyError (KeyRegistry × AnchorStore) := do
  let reg ← KeyRegistry.load store.registry
  if reg.currentPublicKey = [] then
    let reg := { reg with currentPublicKey := self.pub, algorithm := self.algorithm }
    .ok (reg, { store with registry := some reg.save })
  else .ok (reg, store)

/-- What `rotate` and `recover` do once the successor is endorsed: save the registry, anchor with
the new key and verify. -/
def reanchor (newBackend : SigningBackend) (chain : Chain) (now : Str)
    (result : RotationRecord × KeyRegistry) (store : AnchorStore) :
    Except PyError (RotationRecord × AnchorVerdict) × AnchorStore :=
  let store := { store with registry := some result.2.save }
  match (ChainAnchor.signing newBackend).anchor P chain now store with
  | (.error e, store) => (.error e, store)
  | (.ok _, store) =>
    match (ChainAnchor.signing newBackend).verify P fromisoformat C chain store with
    | .error e => (.error e, store)
    | .ok verdict => (.ok (result.1, verdict), store)

/-- `ChainAnchor.rotate` -/
def ChainAnchor.rotate (self : ChainAnchor) (chain : Chain) (newBackend : SigningBackend)
    (reason now : Str) (store : AnchorStore) :
    Except PyError (RotationRecord × AnchorVerdict) × AnchorStore :=
  match self with
  | .verifyOnly _ _ => (.error (verifyOnlyError (lit "rotate keys")), store)
  | .signing backend =>
    match self.bootRegistry store with
    | .error e => (.error e, store)
    | .ok (reg, store) =>
      if !reg.isCurrent self.pub then
        (.error (.valueError (lit "cannot rotate: this key is not the registry's current key " ++
          lit "(use the current key, or --recover if it is lost)")), store)
      else
        match reg.rotate P backend newBackend.publicKey newBackend.algorithm reason now with
        | .error e => (.error e, store)
        | .ok result => reanchor P fromisoformat C newBackend chain now result store

/-- `ChainAnchor.register_recovery` -/
def ChainAnchor.registerRecovery (self : ChainAnchor) (key : Bytes) (algorithm : KeyAlgorithm)
    (store : AnchorStore) : Except PyError Unit × AnchorStore :=
  match self.bootRegistry store with
  | .error e => (.error e, store)
  | .ok (reg, store) =>
    (.ok (), { store with registry := some (reg.registerRecovery key algorithm).save })

/-- `ChainAnchor.recover` -/
def ChainAnchor.recover (self : ChainAnchor) (chain : Chain) (recoveryBackend : SigningBackend)
    (reason now : Str) (store : AnchorStore) :
    Except PyError (RotationRecord × AnchorVerdict) × AnchorStore :=
  match self.bootRegistry store with
  | .error e => (.error e, store)
  | .ok (reg, store) =>
    match reg.recoveryPublicKey with
    | none =>
      (.error (.valueError (lit "no recovery key registered — recovery is impossible; the " ++
        lit "chain remains verifiable via the off-box notary but cannot be re-anchored")), store)
    | some recovery =>
      if recoveryBackend.publicKey ≠ recovery then
        (.error (.valueError
          (lit "recovery key does not match the registered recovery public key")), store)
      else if reg.isRevoked recoveryBackend.publicKey then
        (.error (.valueError
          (lit "recovery key was revoked — not accepted for re-anchoring")), store)
      else
        let reason := if reason = [] then lit "recovery: primary key lost" else reason
        -- the recovery key endorses itself: the lost key cannot sign
        match reg.rotate P recoveryBackend recoveryBackend.publicKey recoveryBackend.algorithm
            reason now with
        | .error e => (.error e, store)
        | .ok result => reanchor P fromisoformat C recoveryBackend chain now result store

/-- `ChainAnchor.revoke`; without a key to revoke, the own key. -/
def ChainAnchor.revoke (self : ChainAnchor) (keyToRevoke : Option Bytes) (reason now : Str)
    (store : AnchorStore) : Except PyError RevocationRecord × AnchorStore :=
  match self with
  | .verifyOnly _ _ => (.error (verifyOnlyError (lit "revoke keys")), store)
  | .signing backend =>
    match self.bootRegistry store with
    | .error e => (.error e, store)
    | .ok (reg, store) =>
      let target := (keyToRevoke.filter fun k => k ≠ []).getD self.pub
      if !reg.isCurrent target && !reg.isRegistered target then
        (.error (.valueError (lit "cannot revoke a key that is not registered")), store)
      else
        match reg.revoke P target reason backend now with
        | .error e => (.error e, store)
        | .ok (record, reg) => (.ok record, { store with registry := some reg.save })

/-! ## The notary -/

/-- What an entry keeps of a `TimestampProof`. -/
structure TimestampProof where
  digestSha256 : Str
  source : Str
  verified : Bool
  genTime : Option Str
  deriving DecidableEq

/-- A line of the notary log. -/
structure NotaryEntry where
  notarizedAt : Str
  anchor : AnchorDoc
  timestamp : Option TimestampProof
  deriving DecidableEq

def AnchorDoc.dict (d : AnchorDoc) : PyVal :=
  .dict ([(.str (lit "snapshot"), d.snapshot.dict), (.str (lit "signature"), .str d.signature),
    (.str (lit "public_key"), .str d.publicKey)] ++
    (d.keyAlgorithm.map fun a => (PyKey.str (lit "key_algorithm"), PyVal.str a.text)).toList)

/-- An entry without its timestamp, as it was stamped. -/
def NotaryEntry.stampedDict (e : NotaryEntry) : PyVal :=
  .dict [(.str (lit "notarized_at"), .str e.notarizedAt), (.str (lit "anchor"), e.anchor.dict)]

/-- `build_notary_entry`: where there is no anchor yet, one is made. -/
def ChainAnchor.buildNotaryEntry (self : ChainAnchor) (chain : Chain) (now : Str)
    (store : AnchorStore) : Except PyError NotaryEntry × AnchorStore :=
  match store.anchor with
  | some doc => (.ok ⟨now, doc, none⟩, store)
  | none =>
    match self.anchor P chain now store with
    | (.error e, store) => (.error e, store)
    | (.ok doc, store) => (.ok ⟨now, doc, none⟩, store)

inductive NotaryVerdict where
  | unregistered
  | badSignature
  | tipMissing (notarizedTip notarizedAt : Str)
  | timestampElsewhere
  | timestampUnverified
  | valid (tipHash : Str) (recordCount : Nat) (timestamp : Option TimestampProof)
  deriving DecidableEq

def NotaryVerdict.isValid : NotaryVerdict → Bool
  | .valid .. => true
  | _ => false

/-- `verify_notary_entry`: under the entry's own key and algorithm. -/
def ChainAnchor.verifyNotaryEntry (self : ChainAnchor) (entry : NotaryEntry) (chain : Chain)
    (store : AnchorStore) : Except PyError NotaryVerdict := do
  let snap := entry.anchor.snapshot
  let signature ← fromHexE entry.anchor.signature
  let pub ← fromHexE entry.anchor.publicKey
  let reg ← self.readRegistry store
  if !reg.isRegistered pub then .ok .unregistered
  else do
    let canonical ← canonicalBytes P snap.dict
    let sigValid :=
      match verifySignature C canonical signature pub entry.anchor.recordedAlgorithm with
      | .ok holds => holds
      | .error _ => false
    if !sigValid then .ok .badSignature
    else do
      let records ← chain.getChain
      if !records.any fun r => r.recordHash = snap.tipHash then
        .ok (.tipMissing snap.tipHash entry.notarizedAt)
      else
        match entry.timestamp.filter fun proof => proof.digestSha256 ≠ [] with
        | none => .ok (.valid snap.tipHash snap.recordCount none)
        | some proof => do
          let stamped ← canonicalBytes P entry.stampedDict
          if proof.digestSha256 ≠ P.hexdigest stamped then .ok .timestampElsewhere
          else if proof.source = lit "rfc3161" ∧ !proof.verified then .ok .timestampUnverified
          else .ok (.valid snap.tipHash snap.recordCount (some proof))

end

end Ledger
