import Msb.Infra.Lines
import Msb.Infra.Run
import Msb.Ledger.AuditV2
import Msb.Ledger.ChainAnchor
import Msb.Ledger.Notary

/-!
# The identity store of the node

`node/identity.py`: devices, challenges, sessions and the requests seen, in four tables. A call
reads with one statement and writes with a later one: no transaction is open in between.

* `IdentityDb.prune` — forgets a session together with the requests seen in it
* `Request`, `requestPayload` — what a signed request says, and what is signed
-/

namespace Py

/-! ## Time -/

/-- The days before the first of January of a year. -/
def daysBeforeYear (year : Nat) : Nat :=
  (year - 1) * 365 + (year - 1) / 4 - (year - 1) / 100 + (year - 1) / 400

def isLeap (year : Nat) : Bool := year % 4 = 0 && (year % 100 ≠ 0 || year % 400 = 0)

/-- The days of the year before the first of a month. -/
def daysBeforeMonth (year month : Nat) : Nat :=
  [0, 31, 59, 90, 120, 151, 181, 212, 243, 273, 304, 334].getD (month - 1) 0 +
    if 2 < month && isLeap year then 1 else 0

/-- A time as a number of microseconds. -/
def UtcTime.micros (t : UtcTime) : Int :=
  let days := daysBeforeYear t.year + daysBeforeMonth t.year t.month + t.day
  (((days * 24 + t.hour) * 60 + t.minute) * 60 + t.second) * 1000000 + t.micro

/-! ## Base64 -/

/-- The value of a character of the URL-safe alphabet; the standard one is read too. -/
def b64Digit (c : CodePoint) : Option Nat :=
  if 65 ≤ c.val ∧ c.val ≤ 90 then some (c.val - 65)
  else if 97 ≤ c.val ∧ c.val ≤ 122 then some (c.val - 71)
  else if 48 ≤ c.val ∧ c.val ≤ 57 then some (c.val + 4)
  else if c.val = 43 ∨ c.val = 45 then some 62
  else if c.val = 47 ∨ c.val = 95 then some 63
  else none

/-- `binascii.a2b_base64`: the bytes, from the digits read so far of a group of four. Other
characters are skipped, and the text ends where a group is padded. -/
def a2bBase64 : (group : List Nat) → (pads : Nat) → Str → Option Bytes
  | group, _, [] => if group = [] then some [] else none
  | group, pads, c :: rest =>
    if c = 61 then
      if 2 ≤ group.length then
        if 4 ≤ group.length + (pads + 1) then some [] else a2bBase64 group (pads + 1) rest
      else a2bBase64 group pads rest
    else
      match b64Digit c, group with
      | none, _ => a2bBase64 group pads rest
      | some d, [] => a2bBase64 [d] 0 rest
      | some d, [x] => (a2bBase64 [x, d] 0 rest).map fun out => UInt8.ofNat (x * 4 + d / 16) :: out
      | some d, [x, y] =>
        (a2bBase64 [x, y, d] 0 rest).map fun out => UInt8.ofNat (y % 16 * 16 + d / 4) :: out
      | some d, _ :: _ :: z :: _ =>
        (a2bBase64 [] 0 rest).map fun out => UInt8.ofNat (z % 4 * 64 + d) :: out

/-- `b64decode`: the padding is added before the text is read. -/
def b64decode (value : Str) : Option Bytes :=
  if value.any fun c => 128 ≤ c.val then none
  else a2bBase64 [] 0 (value ++ List.replicate ((4 - value.length % 4) % 4) 61)

end Py

namespace Node

open Py

/-! ## The tables -/

inductive DeviceStatus where
  | active
  | revoked
  deriving DecidableEq

/-- A row of `node_devices`. -/
structure DeviceRow where
  deviceId : Str
  publicKey : Str
  hardwareAssurance : Str
  status : DeviceStatus
  createdAt : Str
  lastSeenAt : Str
  deriving DecidableEq

/-- A row of `node_challenges`. -/
structure ChallengeRow where
  challenge : Str
  deviceId : Str
  createdAt : Str
  used : Bool
  deriving DecidableEq

inductive SessionStatus where
  | active
  | revoked
  deriving DecidableEq

/-- A row of `node_sessions`. -/
structure SessionRow where
  sessionId : Str
  deviceId : Str
  issuedAt : Str
  expiresAt : Str
  status : SessionStatus
  deriving DecidableEq

/-- A row of `node_replays`. -/
structure ReplayRow where
  requestId : Str
  sessionId : Str
  nonce : Str
  seenAt : Str
  deriving DecidableEq

structure IdentityDb where
  devices : List DeviceRow
  challenges : List ChallengeRow
  sessions : List SessionRow
  replays : List ReplayRow

/-! ## Settings -/

/-- The settings of the store. -/
structure IdentitySettings where
  pairingCode : Str
  sessionTtlS : Int
  clockSkewS : Int

/-- What the store asks the language and the crypto provider: `str(v)`, `datetime.fromisoformat`,
and the verification of a signature under a public key. -/
structure NodeLib where
  keySort : KeySort
  str : PyVal → Str
  fromisoformat : Ledger.IsoParser
  verify : (publicKey message signature : Bytes) → Except PyError Bool

def nodeAuthError (message : Str) : PyError := .raised (lit "NodeAuthError") message

def replayError (message : Str) : PyError := .raised (lit "ReplayError") message

variable (lib : NodeLib) (cfg : IdentitySettings)

/-- `_parse_time`. A time without a zone counts as UTC. -/
def parseTime (value : Str) : Except PyError Int :=
  match lib.fromisoformat (Ledger.replaceZ value) with
  | none => .error (nodeAuthError (lit "invalid timestamp"))
  | some t => .ok t.micros

/-- `canonical_json` -/
def canonicalJson (value : PyVal) : Except PyError Bytes := do
  let text ← dumps lib.keySort true Ledger.canonicalStyle value
  encodeE text

namespace IdentityDb

variable (db : IdentityDb)

def device (deviceId : Str) : Option DeviceRow := db.devices.find? fun d => d.deviceId = deviceId

/-! ## Enrolment -/

/-- The checks of `enroll`, up to its `SELECT`. -/
def enrollCheck (deviceId publicKey pairingCode : Str) : Except PyError Unit := do
  raiseIf (cfg.pairingCode = []) (nodeAuthError (lit "invalid pairing code"))
  raiseIf ((pairingCode ++ cfg.pairingCode).any fun c => 128 ≤ c.val) .typeError
  raiseIf (pairingCode ≠ cfg.pairingCode) (nodeAuthError (lit "invalid pairing code"))
  match b64decode publicKey with
  | none => .error (nodeAuthError (lit "invalid public key encoding"))
  | some key =>
    raiseIf (key.length ≠ 65 ∨ key.head? ≠ some 4)
      (nodeAuthError (lit "public key must be an uncompressed P-256 key"))
    raiseIf (∃ d ∈ db.device deviceId, d.status = .revoked)
      (nodeAuthError (lit "device is revoked"))
    raiseIf (∃ d ∈ db.device deviceId, d.publicKey ≠ publicKey)
      (nodeAuthError (lit "device already enrolled with a different key"))

/-- The `INSERT` of `enroll`: a device that is there by now keeps its key. -/
def enrollWrite (deviceId publicKey hardwareAssurance now : Str) : IdentityDb :=
  match db.device deviceId with
  | some _ =>
    { db with
      devices := db.devices.map fun d =>
        if d.deviceId = deviceId then { d with status := .active, lastSeenAt := now } else d }
  | none =>
    { db with
      devices := db.devices ++ [⟨deviceId, publicKey, hardwareAssurance, .active, now, now⟩] }

/-! ## Forgetting -/

/-- A session that is no longer valid. The texts of the times are compared. -/
def stale (now : Str) (row : SessionRow) : Prop := row.status ≠ .active ∨ row.expiresAt < now

instance (now : Str) : DecidablePred (stale now) := fun _ => inferInstanceAs (Decidable (_ ∨ _))

/-- `prune`, one transaction. -/
def prune (now challengeCutoff : Str) : IdentityDb where
  devices := db.devices
  replays := db.replays.filter fun r => ¬ ∃ row ∈ db.sessions, stale now row ∧
    row.sessionId = r.sessionId
  challenges := db.challenges.filter fun c => ¬ (c.used = true ∨ c.createdAt < challengeCutoff ∨
    ¬ ∃ d ∈ db.devices, d.status = .active ∧ d.deviceId = c.deviceId)
  sessions := db.sessions.filter fun row => ¬ stale now row

/-- `revoke`, one transaction. -/
def revoke (deviceId : Str) : IdentityDb :=
  { db with
    devices := db.devices.map fun d => if d.deviceId = deviceId
      then { d with status := .revoked } else d
    sessions := db.sessions.map fun row =>
      if row.deviceId = deviceId then { row with status := .revoked } else row }

/-! ## Sessions -/

/-- The `SELECT` of `challenge`. -/
def challengeCheck (deviceId : Str) : Except PyError Unit :=
  raiseIf (¬ ∃ d ∈ db.device deviceId, d.status = .active)
    (nodeAuthError (lit "device is not active"))

/-- The `INSERT` of `challenge`. `challenge` is the primary key. -/
def challengeWrite (deviceId value now : Str) : Except PyError IdentityDb := do
  raiseIf (∃ c ∈ db.challenges, c.challenge = value)
    (.raised (lit "IntegrityError") (lit "UNIQUE constraint failed: node_challenges.challenge"))
  .ok { db with challenges := db.challenges ++ [⟨value, deviceId, now, false⟩] }

/-- `session_signature_payload` -/
def sessionPayload (deviceId challenge : Str) : PyVal :=
  .dict [(.str (lit "protocol"), .str (lit "node.v1")), (.str (lit "device_id"), .str deviceId),
    (.str (lit "challenge"), .str challenge)]

/-- A signature over a payload under a key, both as they are sent. -/
def signatureValid (publicKey : Str) (payload : PyVal) (signature : Str) : Except PyError Bool :=
  match b64decode publicKey with
  | none => .error (.valueError [])
  | some key => do
    let message ← canonicalJson lib payload
    match b64decode signature with
    | none => .error (.valueError [])
    | some sig => lib.verify key message sig

/-- `try: valid = verify(...)`, and what is raised where the signature does not verify. -/
def requireSignature (publicKey : Str) (payload : PyVal) (signature error : Str) :
    Except PyError Unit :=
  match signatureValid lib publicKey payload signature with
  | .ok true => .ok ()
  | _ => .error (nodeAuthError error)

/-- The checks of `open_session`. -/
def openCheck (now : UtcTime) (deviceId challenge signature : Str) : Except PyError Unit :=
  match db.challenges.find? fun c => c.challenge = challenge ∧ c.deviceId = deviceId,
    db.device deviceId with
  | some c, some d => do
    raiseIf (d.status ≠ .active) (nodeAuthError (lit "unknown or inactive challenge"))
    raiseIf (c.used = true) (replayError (lit "challenge already used"))
    let createdAt ← parseTime lib c.createdAt
    raiseIf (cfg.clockSkewS * 2 * 1000000 < now.micros - createdAt)
      (nodeAuthError (lit "challenge expired"))
    requireSignature lib d.publicKey (sessionPayload deviceId challenge) signature
      (lit "invalid session signature")
  | _, _ => .error (nodeAuthError (lit "unknown or inactive challenge"))

/-- The `UPDATE` and the `INSERT` of `open_session`, one transaction. -/
def openWrite (challenge : Str) (row : SessionRow) : IdentityDb :=
  { db with
    challenges := db.challenges.map fun c =>
      if c.challenge = challenge then { c with used := true } else c
    sessions := db.sessions ++ [row] }

end IdentityDb

/-! ## Requests -/

/-- The fields of a signed request. -/
structure Request where
  requestId : Str
  sessionId : Str
  timestamp : Str
  nonce : Str
  intent : List (PyKey × PyVal)
  signature : Str

/-- `str(envelope.get(key, ""))` -/
def textField (envelope : List (PyKey × PyVal)) (key : Str) : Str :=
  match Ledger.getItem envelope key with
  | none => []
  | some (.str s) => s
  | some v => lib.str v

/-- The fields of an envelope. -/
def requestOf (envelope : List (PyKey × PyVal)) : Except PyError Request := do
  let requestId := textField lib envelope (lit "request_id")
  let sessionId := textField lib envelope (lit "session_id")
  let timestamp := textField lib envelope (lit "timestamp")
  let nonce := textField lib envelope (lit "nonce")
  raiseIf (requestId = [] ∨ sessionId = [] ∨ timestamp = [] ∨ nonce = [])
    (nodeAuthError (lit "malformed signed request"))
  match Ledger.getItem envelope (lit "intent") with
  | some (.dict intent) =>
    .ok ⟨requestId, sessionId, timestamp, nonce, intent, textField lib envelope (lit "signature")⟩
  | _ => .error (nodeAuthError (lit "malformed signed request"))

/-- `request_signature_payload` -/
def requestPayload (r : Request) : PyVal :=
  .dict [(.str (lit "protocol"), .str (lit "node.v1")), (.str (lit "request_id"), .str r.requestId),
    (.str (lit "session_id"), .str r.sessionId), (.str (lit "timestamp"), .str r.timestamp),
    (.str (lit "nonce"), .str r.nonce), (.str (lit "intent"), .dict r.intent)]

/-- `abs(delta.total_seconds()) > limit` -/
def exceeds (deltaMicros limit : Int) : Bool :=
  match trueDiv |deltaMicros| 1000000 with
  | .finite x => (limit : ℚ) < x.value
  | _ => true

/-- The check of the timestamp. -/
def timeCheck (now : UtcTime) (r : Request) : Except PyError Unit := do
  let requestTime ← parseTime lib r.timestamp
  raiseIf (exceeds (now.micros - requestTime) cfg.clockSkewS = true)
    (nodeAuthError (lit "request timestamp outside allowed clock skew"))

namespace IdentityDb

variable (db : IdentityDb)

/-- The session of a request with its device, both active. -/
def sessionCheck (r : Request) : Except PyError (SessionRow × DeviceRow) :=
  match db.sessions.find? fun row => row.sessionId = r.sessionId with
  | none => .error (nodeAuthError (lit "session or device is inactive"))
  | some row =>
    match db.device row.deviceId with
    | none => .error (nodeAuthError (lit "session or device is inactive"))
    | some device =>
      if row.status = .active ∧ device.status = .active then .ok (row, device)
      else .error (nodeAuthError (lit "session or device is inactive"))

/-- The check of the expiry. The `UPDATE` before the `raise` is rolled back with it. -/
def expiryCheck (now : UtcTime) (row : SessionRow) : Except PyError Unit := do
  let expiresAt ← parseTime lib row.expiresAt
  raiseIf (expiresAt ≤ now.micros) (nodeAuthError (lit "session expired"))

/-- A request or a nonce that was seen. -/
def Seen (r : Request) : Prop := ∃ row ∈ db.replays, row.requestId = r.requestId ∨
    row.nonce = r.nonce

instance (r : Request) : Decidable (db.Seen r) := inferInstanceAs (Decidable (∃ _ ∈ _, _))

/-- The replay check and the signature check. -/
def replayCheck (r : Request) (device : DeviceRow) : Except PyError Unit := do
  raiseIf (db.Seen r) (replayError (lit "request or nonce already used"))
  requireSignature lib device.publicKey (requestPayload r) r.signature
    (lit "invalid request signature")

/-- The `INSERT` and the `UPDATE` at the end of `verify_request`, one transaction. `request_id` is
the primary key, and `nonce` is unique. -/
def replayInsert (r : Request) (deviceId now : Str) : Except PyError IdentityDb := do
  raiseIf (db.Seen r) (replayError (lit "request or nonce already used"))
  .ok { db with
    replays := db.replays ++ [⟨r.requestId, r.sessionId, r.nonce, now⟩]
    devices := db.devices.map fun d => if d.deviceId = deviceId
      then { d with lastSeenAt := now } else d }

end IdentityDb

end Node
