import Msb.Infra.Keyed
import Msb.Infra.Run
import Msb.Ledger.Notary

/-!
# Agent identities

`agent/identity.py`: the standing grants of the agents, one row each. The fingerprint is stored with
the row; it is computed only for an identity that is built without one. What is appended to the
audit chain is left out: the appends are contained, and nothing here reads them.

* `AgentRegistry.register`, `AgentRegistry.get`, `AgentRegistry.revoke`,
  `AgentRegistry.hasCapability`
-/

namespace Agent

open Py Ledger

/-! ## Identities -/

/-- What the registry takes from the runtime. A digest is not empty. -/
structure Hashing where
  keySort : KeySort
  sha256 : Bytes → Bytes
  digest : ∀ b, sha256 b ≠ []

/-- The fields that the fingerprint covers. -/
structure Grant where
  providerId : Str
  model : Str
  grantedCapabilities : List Str
  tenantScope : Str
  autonomyLevel : Int
  maxRiskTier : Int

variable (P : Hashing)

/-- What is hashed. -/
def Grant.items (g : Grant) : List (PyKey × PyVal) :=
  [(.str (lit "provider_id"), .str g.providerId), (.str (lit "model"), .str g.model),
    (.str (lit "granted_capabilities"),
      .list ((g.grantedCapabilities.insertionSort (· ≤ ·)).map .str)),
    (.str (lit "tenant_scope"), .str g.tenantScope),
      (.str (lit "autonomy_level"), .int g.autonomyLevel),
    (.str (lit "max_risk_tier"), .int g.maxRiskTier)]

/-- `payload.encode()` -/
def Grant.payload (g : Grant) : Except PyError Bytes := do
  let text ← dumps P.keySort true plainStyle (.dict g.items)
  encodeE text

/-- `hashlib.sha256(payload).hexdigest()[:16]` -/
def Hashing.truncated (payload : Bytes) : Str := (hex (P.sha256 payload)).take 16

/-- `compute_fingerprint` -/
def computeFingerprint (g : Grant) : Except PyError Str := (g.payload P).map P.truncated

/-- What `AgentIdentity(...)` is called with. -/
structure IdentityFields extends Grant where
  agentId : Str
  name : Str
  kind : Str
  createdAt : Str
  revoked : Bool
  fingerprint : Str

/-- An identity has a fingerprint. The capabilities of one that is read may be any values. -/
structure AgentIdentity where
  agentId : Str
  name : Str
  kind : Str
  providerId : Str
  model : Str
  grantedCapabilities : List PyVal
  tenantScope : Str
  autonomyLevel : Int
  maxRiskTier : Int
  createdAt : Str
  revoked : Bool
  fingerprint : Str
  stamped : fingerprint ≠ []

theorem truncated_ne_nil (payload : Bytes) : P.truncated payload ≠ [] := by
  unfold Hashing.truncated hex
  cases hdigest : P.sha256 payload with
  | nil => exact absurd hdigest (P.digest payload)
  | cons byte rest =>
    rw [List.flatMap_cons]
    exact List.cons_ne_nil _ _

/-- The identity of the fields, with a fingerprint. -/
def IdentityFields.stamp (f : IdentityFields) (fingerprint : Str) (h : fingerprint ≠ []) :
    AgentIdentity :=
  ⟨f.agentId, f.name, f.kind, f.providerId, f.model, f.grantedCapabilities.map .str, f.tenantScope,
    f.autonomyLevel, f.maxRiskTier, f.createdAt, f.revoked, fingerprint, h⟩

/-- `AgentIdentity(...)` -/
def IdentityFields.construct (f : IdentityFields) : Except PyError AgentIdentity :=
  if h : f.fingerprint ≠ [] then .ok (f.stamp f.fingerprint h)
  else (f.payload P).map fun payload => f.stamp (P.truncated payload) (truncated_ne_nil P payload)

/-- `has_capability` -/
def AgentIdentity.hasCapability (a : AgentIdentity) (capability : Str) : Bool :=
  !a.revoked && a.grantedCapabilities.any fun v => isText v capability

/-! ## The registry -/

/-- A row of `agent_identity`. -/
structure AgentRow where
  agentId : Str
  name : Str
  kind : Str
  providerId : Str
  model : Str
  grantedCapabilities : Str
  tenantScope : Str
  autonomyLevel : Int
  maxRiskTier : Int
  fingerprint : Str
  createdAt : Str
  revoked : Bool
  stamped : fingerprint ≠ []

/-- The texts of a row. -/
def AgentRow.texts (r : AgentRow) : List Str :=
  [r.agentId, r.name, r.kind, r.providerId, r.model, r.grantedCapabilities, r.tenantScope,
    r.fingerprint, r.createdAt]

/-- What is edited in the columns of a grant. -/
structure GrantColumns where
  providerId : Str
  model : Str
  grantedCapabilities : Str
  tenantScope : Str
  autonomyLevel : Int
  maxRiskTier : Int

def AgentRow.edited (r : AgentRow) (c : GrantColumns) : AgentRow :=
  { r with
    providerId := c.providerId, model := c.model, grantedCapabilities :=
      c.grantedCapabilities, tenantScope := c.tenantScope,
    autonomyLevel := c.autonomyLevel, maxRiskTier := c.maxRiskTier }

/-- The rows. The last field is what has happened so far, for the statements: the ids for which a
call of `revoke` has returned. -/
structure AgentRegistry where
  rows : List AgentRow
  revokedIds : List Str

namespace AgentRegistry

def empty : AgentRegistry := ⟨[], []⟩

/-- `tuple(_un(text, []))` -/
def capabilitiesOf (text : Str) : Except PyError (List PyVal) :=
  match loads text with
  | .error _ => .ok []
  | .ok (.list xs) => .ok xs
  | .ok (.str s) => .ok (s.map fun c => .str [c])
  | .ok (.dict items) => .ok (items.map fun p => .str (keyText p.1))
  | .ok _ => .error .typeError

/-- A number of 64 bits. -/
def fits (n : Int) : Bool := decide (-2 ^ 63 ≤ n ∧ n < 2 ^ 63)

/-- The row of an identity. -/
def rowOf (a : AgentIdentity) : Except PyError AgentRow := do
  let capabilities ← dumps P.keySort true plainStyle (.list a.grantedCapabilities)
  let row : AgentRow :=
    ⟨a.agentId, a.name, a.kind, a.providerId, a.model, capabilities, a.tenantScope, a.autonomyLevel,
    a.maxRiskTier, a.fingerprint, a.createdAt, a.revoked, a.stamped⟩
  raiseIf (∃ text ∈ row.texts, encode text = none) .unicodeEncodeError
  raiseIf (fits a.autonomyLevel = false ∨ fits a.maxRiskTier = false)
    (.raised (lit "OverflowError") (lit "Python int too large to convert to SQLite INTEGER"))
  return row

variable (s : AgentRegistry)

/-- `register`: `INSERT OR REPLACE` -/
def register (a : AgentIdentity) : Except PyError AgentRegistry := do
  let row ← rowOf P a
  return { s with rows := Keyed.put AgentRow.agentId row s.rows }

def unknown (agentId : Str) : PyError := .raised (lit "KeyError") (lit "unknown agent: " ++ agentId)

/-- `get`. A row has a fingerprint, so none is computed. -/
def get (agentId : Str) : Except PyError AgentIdentity := do
  raiseIf (encode agentId = none) .unicodeEncodeError
  match Keyed.find AgentRow.agentId agentId s.rows with
  | none => .error (unknown agentId)
  | some r =>
    let capabilities ← capabilitiesOf r.grantedCapabilities
    return ⟨r.agentId, r.name, r.kind, r.providerId, r.model, capabilities, r.tenantScope,
      r.autonomyLevel, r.maxRiskTier, r.createdAt, r.revoked, r.fingerprint, r.stamped⟩

/-- `UPDATE agent_identity ... WHERE agent_id = ?` -/
def modify (agentId : Str) (f : AgentRow → AgentRow) : AgentRegistry :=
  { s with rows := s.rows.map fun r => if r.agentId = agentId then f r else r }

/-- `revoke`. The row is updated before it is read again. -/
def revoke (agentId : Str) : Except PyError AgentIdentity × AgentRegistry :=
  if encode agentId = none then (.error .unicodeEncodeError, s)
  else
    match Keyed.find AgentRow.agentId agentId s.rows with
    | none => (.error (unknown agentId), s)
    | some _ =>
      let updated := s.modify agentId fun r => { r with revoked := true }
      match updated.get agentId with
      | .error e => (.error e, updated)
      | .ok a => (.ok a, { updated with revokedIds := updated.revokedIds ++ [agentId] })

def isKeyError : PyError → Bool
  | .raised name _ => name = lit "KeyError"
  | _ => false

/-- `has_capability` -/
def hasCapability (agentId capability : Str) : Except PyError Bool :=
  match s.get agentId with
  | .ok a => .ok (a.hasCapability capability)
  | .error e => if isKeyError e = true then .ok false else .error e

/-! ## The system -/

inductive Call where
  | register (f : IdentityFields)
  | revoke (agentId : Str)

/-- A call, or an edit of the stored columns. -/
inductive Event where
  | call (c : Call)
  | edit (agentId : Str) (columns : GrantColumns)

/-- The registry after a call, whether it has returned or raised. -/
def Call.run (s : AgentRegistry) : Call → AgentRegistry
  | .register f =>
    match f.construct P >>= s.register P with
    | .error _ => s
    | .ok t => t
  | .revoke agentId => (s.revoke agentId).2

def callStep (s : AgentRegistry) (c : Call) : Option AgentRegistry := some (c.run P s)

def step (s : AgentRegistry) : Event → Option AgentRegistry
  | .call c => callStep P s c
  | .edit agentId columns => some (s.modify agentId fun r => r.edited columns)

end AgentRegistry

end Agent
