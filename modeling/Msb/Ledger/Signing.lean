import Msb.Infra.Hex

/-!
# Signatures

`signing.py`: the key algorithms, the check of a signature and the signing backends. The
signature primitives come from a package outside the repository and are a parameter.

* `verifySignature` — the dispatch on the recorded algorithm
* `Honest` — a backend whose signatures hold under its own key
-/

namespace Ledger

open Py

/-- The algorithm names. -/
inductive KeyAlgorithm where
  | ed25519
  | secp256r1
  | secp384r1
  | other (name : Str)
  deriving DecidableEq

def KeyAlgorithm.text : KeyAlgorithm → Str
  | .ed25519 => lit "ed25519"
  | .secp256r1 => lit "secp256r1"
  | .secp384r1 => lit "secp384r1"
  | .other name => name

/-- The signature checks of the `cryptography` package. -/
structure Crypto where
  ed25519Verify (publicKey signature message : Bytes) : Bool
  ecdsaVerify (curve : KeyAlgorithm) (x y : Nat) (signature message : Bytes) : Bool

/-- `int.from_bytes(b, "big")` -/
def fromBigEndian (b : Bytes) : Nat := b.foldl (fun n x => 256 * n + x.toNat) 0

/-- `_public_point_bytes`. `none` is `ValueError`. -/
def publicPointBytes (publicKey : Bytes) (algorithm : KeyAlgorithm) : Option (Nat × Nat) :=
  let size := if algorithm = .secp256r1 then 32 else 48
  if publicKey.length ≠ 1 + 2 * size ∨ publicKey.head? ≠ some 4 then none
  else some (fromBigEndian ((publicKey.drop 1).take size),
    fromBigEndian (publicKey.drop (1 + size)))

/-- `verify_signature` -/
def verifySignature (C : Crypto) (message signature publicKey : Bytes) (algorithm : KeyAlgorithm) :
    Except PyError Bool :=
  match algorithm with
  | .ed25519 => .ok (C.ed25519Verify publicKey signature message)
  | .other name => .error (.valueError (lit "unsupported anchor key algorithm: " ++ name))
  | _ =>
    match publicPointBytes publicKey algorithm with
    | none => .ok false
    | some (x, y) => .ok (C.ecdsaVerify algorithm x y signature message)

/-- A `SigningBackend`. Signing raises where the device is not available. -/
structure SigningBackend where
  algorithm : KeyAlgorithm
  publicKey : Bytes
  sign : Bytes → Except PyError Bytes

/-- The signatures of an honest backend hold under its own key, and the key is not empty. -/
structure Honest (C : Crypto) (b : SigningBackend) : Prop where
  key_ne_nil : b.publicKey ≠ []
  verifies : ∀ {message signature}, b.sign message = .ok signature →
    verifySignature C message signature b.publicKey b.algorithm = .ok true

/-- A scheme whose signature is the key followed by the message. -/
def Crypto.plain : Crypto where
  ed25519Verify publicKey signature message := signature = publicKey ++ message
  ecdsaVerify _ _ _ _ _ := false

def SigningBackend.plain (key : Bytes) : SigningBackend :=
  ⟨.ed25519, key, fun message => .ok (key ++ message)⟩

theorem honest_plain {key : Bytes} (h : key ≠ []) : Honest .plain (.plain key) where
  key_ne_nil := h
  verifies hsig := by
    obtain rfl := Except.ok.inj hsig
    simp [verifySignature, Crypto.plain, SigningBackend.plain]

end Ledger
