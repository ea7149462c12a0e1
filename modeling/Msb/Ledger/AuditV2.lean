import Msb.Ledger.KeyRegistry

/-!
# The canonical form of version 2

`audit_v2.py`: the values that the second audit format admits, their one JSON text, and its hash.
-/

namespace Ledger

open Py

/-- `json.dumps(..., ensure_ascii=False, separators=(",", ":"))` -/
def canonicalStyle : JsonStyle := { compactStyle with ensureAscii := false }

def canonicalizationError (message : Str) : PyError :=
  .raised (lit "CanonicalizationError") message

mutual

/-- `_validate_value` -/
def validateValue (path : Str) : PyVal → Except PyError Unit
  | .none => .ok ()
  | .bool _ => .ok ()
  | .int _ => .ok ()
  | .str _ => .ok ()
  | .float f =>
    if f.isFinite then .ok ()
    else .error (canonicalizationError (path ++ lit " contains a non-finite number"))
  | .list xs => validateElems path 0 xs
  | .dict items => validateItems path items
  | .tuple _ => .error (canonicalizationError (path ++ lit " has unsupported type tuple"))

def validateElems (path : Str) (i : Nat) : List PyVal → Except PyError Unit
  | [] => .ok ()
  | x :: xs => do
    validateValue (path ++ lit "[" ++ (intLit i).text ++ lit "]") x
    validateElems path (i + 1) xs

def validateItems (path : Str) : List (PyKey × PyVal) → Except PyError Unit
  | [] => .ok ()
  | (.str k, v) :: items => do
    validateValue (path ++ lit "." ++ k) v
    validateItems path items
  | _ :: _ => .error (canonicalizationError (path ++ lit " has a non-string object key"))

end

/-- `canonicalize` -/
def canonicalize (P : Platform) (v : PyVal) : Except PyError Str := do
  validateValue (lit "record") v
  dumps P.keySort true canonicalStyle v

/-- `sha256_hex` -/
def sha256Hex (P : Platform) (v : PyVal) : Except PyError Str := do
  let text ← canonicalize P v
  let b ← encodeE text
  .ok (P.hexdigest b)

end Ledger
