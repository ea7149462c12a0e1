import Msb.Ledger.AuditChain
import Msb.Ledger.Signing

/-!
# The key registry

`KeyRegistry` of `chain_anchor.py`: which key is current, which one may recover, which successors
were endorsed and which keys are revoked. The registry lives in a file; every operation loads it,
changes it and saves it again.

* `load_save` — a saved registry loads as it was, but for an empty recovery key
-/

namespace Ledger

open Py

/-! ## Records -/

/-- A successor endorsement, keys and signature in hexadecimal. -/
structure RotationRecord where
  fromKey : Str
  toKey : Str
  fromAlgorithm : KeyAlgorithm
  toAlgorithm : KeyAlgorithm
  rotatedAt : Str
  reason : Str
  fromSignature : Str
  deriving DecidableEq

/-- A revocation, key and signature in hexadecimal. -/
structure RevocationRecord where
  key : Str
  revokedAt : Str
  reason : Str
  signature : Str
  deriving DecidableEq

structure KeyRegistry where
  currentPublicKey : Bytes
  algorithm : KeyAlgorithm
  recoveryPublicKey : Option Bytes
  recoveryAlgorithm : Option KeyAlgorithm
  rotations : List RotationRecord
  revocations : List RevocationRecord
  deriving DecidableEq

/-- The registry before there is a file. -/
def KeyRegistry.empty : KeyRegistry := ⟨[], .ed25519, none, none, [], []⟩

/-! ## The file -/

/-- The content of `chain_key_registry.json`. -/
structure RegistryDoc where
  currentPublicKey : Str
  algorithm : KeyAlgorithm
  recoveryPublicKey : Option Str
  recoveryAlgorithm : Option KeyAlgorithm
  rotations : List RotationRecord
  revocations : List RevocationRecord
  deriving DecidableEq

/-- `KeyRegistry.save`: an empty recovery key is written as `null`. -/
def KeyRegistry.save (r : KeyRegistry) : RegistryDoc where
  currentPublicKey := hex r.currentPublicKey
  algorithm := r.algorithm
  recoveryPublicKey := r.recoveryPublicKey.bind fun k => if k = [] then none else some (hex k)
  recoveryAlgorithm := r.recoveryAlgorithm
  rotations := r.rotations
  revocations := r.revocations

/-- `bytes.fromhex`, raising. -/
def fromHexE (s : Str) : Except PyError Bytes :=
  match fromHex s with
  | some b => .ok b
  | none => .error (.valueError (lit "non-hexadecimal number found in fromhex() arg"))

/-- The recovery key of a file: `null` and the empty text are no key. -/
def loadRecovery : Option Str → Except PyError (Option Bytes)
  | none => .ok none
  | some s => if s = [] then .ok none else (fromHexE s).map some

/-- `KeyRegistry.load` -/
def KeyRegistry.load : Option RegistryDoc → Except PyError KeyRegistry
  | none => .ok .empty
  | some doc => do
    let current ← fromHexE doc.currentPublicKey
    let recovery ← loadRecovery doc.recoveryPublicKey
    .ok ⟨current, doc.algorithm, recovery, doc.recoveryAlgorithm, doc.rotations, doc.revocations⟩

theorem fromHexE_hex (b : Bytes) : fromHexE (hex b) = .ok b := by
  rw [fromHexE, fromHex_hex]

theorem hex_ne_nil {b : Bytes} (h : b ≠ []) : hex b ≠ [] := by
  rcases List.exists_cons_of_ne_nil h with ⟨x, b, rfl⟩
  simp [hex]

/-- The registry as it is after being saved and loaded. -/
def KeyRegistry.normal (r : KeyRegistry) : KeyRegistry :=
  { r with recoveryPublicKey := r.recoveryPublicKey.bind fun k => if k = [] then none else some k }

/-- **A saved registry loads as it was**, but for an empty recovery key. -/
theorem load_save (r : KeyRegistry) : KeyRegistry.load (some r.save) = .ok r.normal := by
  have hrec : loadRecovery r.save.recoveryPublicKey = .ok r.normal.recoveryPublicKey := by
    unfold KeyRegistry.save KeyRegistry.normal
    rcases r.recoveryPublicKey with _ | k
    · rfl
    · by_cases hk : k = []
      · simp [hk, loadRecovery]
      · simp [hk, loadRecovery, hex_ne_nil hk, fromHexE_hex, Except.map]
  rw [KeyRegistry.load, hrec]
  simp only [KeyRegistry.save, fromHexE_hex, bind, Except.bind]
  rfl

/-! ## Queries -/

/-- `is_current` -/
def KeyRegistry.isCurrent (r : KeyRegistry) (k : Bytes) : Bool :=
  r.currentPublicKey ≠ [] && k = r.currentPublicKey

/-- `is_recovery` -/
def KeyRegistry.isRecovery (r : KeyRegistry) (k : Bytes) : Bool :=
  r.recoveryPublicKey.any fun p => p ≠ [] && k = p

/-- `is_revoked` -/
def KeyRegistry.isRevoked (r : KeyRegistry) (k : Bytes) : Bool :=
  r.revocations.any fun v => v.key = hex k

/-- `is_registered`: current, recovery, or a party of a rotation. -/
def KeyRegistry.isRegistered (r : KeyRegistry) (k : Bytes) : Bool :=
  r.isCurrent k || r.isRecovery k ||
    r.rotations.any fun t => t.fromKey = hex k || t.toKey = hex k

/-! ## Rotation, recovery key and revocation -/

/-- `json.dumps(..., sort_keys=True, separators=(",", ":"))` -/
def compactStyle : JsonStyle := ⟨[], [], true, by simp, by simp⟩

/-- A dict, canonically encoded for signing. -/
def canonicalBytes (P : Platform) (v : PyVal) : Except PyError Bytes := do
  let text ← dumps P.keySort true compactStyle v
  encodeE text

/-- The statement that a rotation signs. -/
def rotationBody (fromKey toKey : Str) (fromAlgorithm toAlgorithm : KeyAlgorithm)
    (rotatedAt reason : Str) : PyVal :=
  .dict [(.str (lit "type"), .str (lit "key-rotation")), (.str (lit "from"), .str fromKey),
    (.str (lit "to"), .str toKey), (.str (lit "from_algorithm"), .str fromAlgorithm.text),
    (.str (lit "to_algorithm"), .str toAlgorithm.text), (.str (lit "rotated_at"), .str rotatedAt),
    (.str (lit "reason"), .str reason)]

/-- The statement that a revocation signs. -/
def revocationBody (key revokedAt reason : Str) : PyVal :=
  .dict [(.str (lit "type"), .str (lit "key-revocation")), (.str (lit "key"), .str key),
    (.str (lit "revoked_at"), .str revokedAt), (.str (lit "reason"), .str reason)]

/-- `KeyRegistry.rotate` up to its `save`: the endorsement, and the registry moved on. -/
def KeyRegistry.rotate (P : Platform) (r : KeyRegistry) (fromBackend : SigningBackend)
    (toKey : Bytes) (toAlgorithm : KeyAlgorithm) (reason now : Str) :
    Except PyError (RotationRecord × KeyRegistry) := do
  let canonical ← canonicalBytes P (rotationBody (hex fromBackend.publicKey) (hex toKey)
    fromBackend.algorithm toAlgorithm now reason)
  let signature ← fromBackend.sign canonical
  let record : RotationRecord := ⟨hex fromBackend.publicKey, hex toKey, fromBackend.algorithm,
    toAlgorithm, now, reason, hex signature⟩
  .ok (record, { r with
    rotations := r.rotations ++ [record]
    currentPublicKey := toKey
    algorithm := toAlgorithm })

/-- `KeyRegistry.register_recovery` up to its `save`. -/
def KeyRegistry.registerRecovery (r : KeyRegistry) (key : Bytes) (algorithm : KeyAlgorithm) :
    KeyRegistry :=
  { r with recoveryPublicKey := some key, recoveryAlgorithm := some algorithm }

/-- `KeyRegistry.revoke` up to its `save`. -/
def KeyRegistry.revoke (P : Platform) (r : KeyRegistry) (key : Bytes) (reason : Str)
    (signer : SigningBackend) (now : Str) : Except PyError (RevocationRecord × KeyRegistry) := do
  let canonical ← canonicalBytes P (revocationBody (hex key) now reason)
  let signature ← signer.sign canonical
  let record : RevocationRecord := ⟨hex key, now, reason, hex signature⟩
  .ok (record, { r with revocations := r.revocations ++ [record] })

end Ledger
