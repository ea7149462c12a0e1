import Msb.Node.Identity

/-!
# Signed requests

The calls of the identity store, statement by statement, in any interleaving. A request is accepted
when its row is inserted. The row and its session are forgotten together, so a request that is still
under way when its session is forgotten may be accepted a second time.

* `step_ext` — what no step changes: keys, opened sessions, signatures
* `run_replaySafe` — runs in which no request outlives its session
* `not_replaySafe` — a request that does
-/

namespace Node

open Py Machine

/-! ## States -/

/-- What `verify_request` holds after its `SELECT`: the request, the time at which its timestamp was
checked, the rows read, and the time at which the expiry was checked. -/
structure Verifying where
  request : Request
  checkedAt : UtcTime
  session : SessionRow
  device : DeviceRow
  liveAt : UtcTime

/-- How far a call is. -/
inductive Stage where
  | enrolling (deviceId publicKey hardwareAssurance : Str)
  | challenging (deviceId : Str)
  | opening (deviceId challenge : Str)
  | timely (request : Request) (checkedAt : UtcTime)
  | found (request : Request) (checkedAt : UtcTime) (session : SessionRow) (device : DeviceRow)
  | live (v : Verifying)
  | fresh (v : Verifying)

structure NodeState where
  clock : UtcTime
  db : IdentityDb
  calls : Nat → Option Stage
  /-- The sessions opened so far, as they were opened. -/
  opened : List SessionRow
  /-- The messages signed so far, each with the public key. -/
  signed : List (Bytes × Bytes)
  accepted : List Verifying

/-- A statement of a call, by the number of the call, or a step of the world around the store. -/
inductive NodeEvent where
  | tick (now : UtcTime)
  | sign (publicKey message : Bytes)
  | prune (now challengeCutoff : UtcTime)
  | revoke (deviceId : Str)
  | enrollCheck (call : Nat) (deviceId publicKey pairingCode hardwareAssurance : Str)
  | enrollWrite (call : Nat)
  | challengeCheck (call : Nat) (deviceId : Str)
  | challengeWrite (call : Nat) (value : Str)
  | openCheck (call : Nat) (deviceId challenge signature : Str)
  | openWrite (call : Nat) (sessionId : Str) (expiresAt : UtcTime)
  | requestStart (call : Nat) (envelope : List (PyKey × PyVal))
  | requestSession (call : Nat)
  | requestExpiry (call : Nat)
  | requestReplay (call : Nat)
  | requestInsert (call : Nat)
  | failed (call : Nat)

namespace NodeState

/-- The call goes on, or it ends. -/
def setCall (s : NodeState) (call : Nat) (stage : Option Stage) : NodeState :=
  { s with calls := Function.update s.calls call stage }

/-- A write, and the end of the call. -/
def write (s : NodeState) (call : Nat) (db : IdentityDb) : NodeState :=
  { s with db, calls := Function.update s.calls call none }

/-- The first statement of a call. -/
def start (s : NodeState) (call : Nat) (check : Except PyError Stage) : Option NodeState :=
  if s.calls call = none then some (s.setCall call check.toOption) else none

end NodeState

variable (lib : NodeLib) (cfg : IdentitySettings)

instance (s : NodeState) (call : Nat) : Decidable (s.calls call = none) :=
  decidable_of_iff ((s.calls call).isNone = true) (by simp)

/-- One statement. The clock does not go back, a token is drawn once, and a time that a statement
uses was read before it. -/
def nodeStep (s : NodeState) : NodeEvent → Option NodeState
  | .tick now => if s.clock.micros ≤ now.micros then some { s with clock := now } else none
  | .sign publicKey message => some { s with signed := s.signed ++ [(publicKey, message)] }
  | .prune now challengeCutoff =>
    if now.micros ≤ s.clock.micros ∧ challengeCutoff.micros = now.micros - cfg.clockSkewS * 2 *
      1000000 then
      some { s with db := s.db.prune now.isoformat challengeCutoff.isoformat }
    else none
  | .revoke deviceId => some { s with db := s.db.revoke deviceId }
  | .enrollCheck call deviceId publicKey pairingCode hardwareAssurance =>
    s.start call ((s.db.enrollCheck cfg deviceId publicKey pairingCode).map fun _ =>
      .enrolling deviceId publicKey hardwareAssurance)
  | .enrollWrite call =>
    match s.calls call with
    | some (.enrolling deviceId publicKey hardwareAssurance) =>
      some (s.write call (s.db.enrollWrite deviceId publicKey hardwareAssurance s.clock.isoformat))
    | _ => none
  | .challengeCheck call deviceId =>
    s.start call ((s.db.challengeCheck deviceId).map fun _ => .challenging deviceId)
  | .challengeWrite call value =>
    match s.calls call with
    | some (.challenging deviceId) =>
      some (s.write call
        ((s.db.challengeWrite deviceId value s.clock.isoformat).toOption.getD s.db))
    | _ => none
  | .openCheck call deviceId challenge signature =>
    s.start call ((s.db.openCheck lib cfg s.clock deviceId challenge signature).map fun _ =>
      .opening deviceId challenge)
  | .openWrite call sessionId expiresAt =>
    match s.calls call with
    | some (.opening deviceId challenge) =>
      let row : SessionRow := ⟨sessionId, deviceId, s.clock.isoformat, expiresAt.isoformat, .active⟩
      if (∀ o ∈ s.opened, o.sessionId ≠ sessionId) ∧
          expiresAt.micros = s.clock.micros + cfg.sessionTtlS * 1000000 then
        some { s.write call (s.db.openWrite challenge row) with opened := s.opened ++ [row] }
      else none
    | _ => none
  | .requestStart call envelope =>
    s.start call (do
      let request ← requestOf lib envelope
      timeCheck lib cfg s.clock request
      .ok (.timely request s.clock))
  | .requestSession call =>
    match s.calls call with
    | some (.timely request checkedAt) =>
      some (s.setCall call ((s.db.sessionCheck request).map fun rows =>
        Stage.found request checkedAt rows.1 rows.2).toOption)
    | _ => none
  | .requestExpiry call =>
    match s.calls call with
    | some (.found request checkedAt session device) =>
      some (s.setCall call ((IdentityDb.expiryCheck lib s.clock session).map fun _ =>
        Stage.live ⟨request, checkedAt, session, device, s.clock⟩).toOption)
    | _ => none
  | .requestReplay call =>
    match s.calls call with
    | some (.live v) =>
      some (s.setCall call ((s.db.replayCheck lib v.request v.device).map fun _ =>
        Stage.fresh v).toOption)
    | _ => none
  | .requestInsert call =>
    match s.calls call with
    | some (.fresh v) =>
      match s.db.replayInsert v.request v.session.deviceId s.clock.isoformat with
      | .error _ => some (s.setCall call none)
      | .ok db => some { s.write call db with accepted := s.accepted ++ [v] }
    | _ => none
  | .failed call => some (s.setCall call none)

/-- A new store. -/
def NodeState.init (clock : UtcTime) : NodeState :=
  ⟨clock, ⟨[], [], [], []⟩, fun _ => none, [], [], []⟩

/-! ## Replay protection -/

/-- The device with the key is enrolled. -/
def HasKey (s : NodeState) (deviceId publicKey : Str) : Prop :=
  ∃ d ∈ s.db.devices, d.deviceId = deviceId ∧ d.publicKey = publicKey

/-- The session was opened, for the device and with the expiry. -/
def WasOpened (s : NodeState) (row : SessionRow) : Prop :=
  ∃ o ∈ s.opened, o.sessionId = row.sessionId ∧ o.deviceId = row.deviceId ∧
    o.expiresAt = row.expiresAt

/-- The session is still stored. -/
def Stored (s : NodeState) (sessionId : Str) : Prop :=
  ∃ row ∈ s.db.sessions, row.sessionId = sessionId

/-- The owner of the session signed the request, its timestamp was checked in time, and the session
had not expired. -/
structure Owned (s : NodeState) (v : Verifying) : Prop where
  session : v.session.sessionId = v.request.sessionId
  opened : WasOpened s v.session
  owner : v.device.deviceId = v.session.deviceId
  key : HasKey s v.device.deviceId v.device.publicKey
  timely : timeCheck lib cfg v.checkedAt v.request = .ok ()
  unexpired : IdentityDb.expiryCheck lib v.liveAt v.session = .ok ()
  ordered : v.checkedAt.micros ≤ v.liveAt.micros ∧ v.liveAt.micros ≤ s.clock.micros
  signed : ∃ key message, b64decode v.device.publicKey = some key ∧
    canonicalJson lib (requestPayload v.request) = .ok message ∧ (key, message) ∈ s.signed

/-- The record of a request that was accepted is there for as long as its session is. -/
def Kept (s : NodeState) (v : Verifying) : Prop :=
  Stored s v.request.sessionId → ∃ row ∈ s.db.replays, row.requestId = v.request.requestId ∧
    row.sessionId = v.request.sessionId ∧ row.nonce = v.request.nonce

/-- In one session no request id and no nonce is accepted twice, so no envelope is. -/
structure ReplaySafe (s : NodeState) : Prop where
  once : s.accepted.Pairwise fun v w => v.request.sessionId = w.request.sessionId →
    v.request.requestId ≠ w.request.requestId ∧ v.request.nonce ≠ w.request.nonce
  owned : ∀ v ∈ s.accepted, Owned lib cfg s v
  kept : ∀ v ∈ s.accepted, Kept s v

/-! ## Conditions on a step -/

/-- A signature that verifies was made with the key. -/
def Unforged (s : NodeState) (e : NodeEvent) : Prop :=
  ∀ call v key message signature, e = .requestReplay call → s.calls call = some (.live v) →
    b64decode v.device.publicKey = some key → canonicalJson lib (requestPayload v.request) =
    .ok message →
    b64decode v.request.signature = some signature → lib.verify key message signature = .ok true →
    (key, message) ∈ s.signed

/-- The session of a request that is about to be inserted has not been forgotten. -/
def SessionKept (s : NodeState) (e : NodeEvent) : Prop :=
  ∀ call v, e = .requestInsert call → s.calls call = some (.fresh v) → Stored s v.request.sessionId

/-! ## What a step can do -/

variable {lib cfg} {s t : NodeState} {e : NodeEvent}

/-- No device is lost, and none gets another key. -/
def KeepsKeys (db db' : IdentityDb) : Prop :=
  ∀ d ∈ db.devices, ∃ d' ∈ db'.devices, d'.deviceId = d.deviceId ∧ d'.publicKey = d.publicKey

variable {db db' : IdentityDb} {v : Verifying}

theorem keepsKeys_of_eq (h : db'.devices = db.devices) : KeepsKeys db db' := by
  intro d hd
  exact ⟨d, h ▸ hd, rfl, rfl⟩

theorem keepsKeys_of_map {f : DeviceRow → DeviceRow} (h : db'.devices = db.devices.map f)
    (hf : ∀ d, (f d).deviceId = d.deviceId ∧ (f d).publicKey = d.publicKey) : KeepsKeys db db' := by
  intro d hd
  exact ⟨f d, h ▸ List.mem_map_of_mem hd, hf d⟩

theorem keepsKeys_enrollWrite (db : IdentityDb) (deviceId publicKey hardwareAssurance now : Str) :
    KeepsKeys db (db.enrollWrite deviceId publicKey hardwareAssurance now) := by
  unfold IdentityDb.enrollWrite
  split
  · exact keepsKeys_of_map rfl fun d => by split <;> exact ⟨rfl, rfl⟩
  · exact fun d hd => ⟨d, List.mem_append_left _ hd, rfl, rfl⟩

theorem keepsKeys_revoke (db : IdentityDb) (deviceId : Str) : KeepsKeys db (db.revoke deviceId) :=
  keepsKeys_of_map rfl fun d => by split <;> exact ⟨rfl, rfl⟩

theorem replayInsert_eq_ok {r : Request} {deviceId now : Str}
    (h : db.replayInsert r deviceId now = .ok db') :
    ¬ db.Seen r ∧ db'.sessions = db.sessions ∧
      db'.replays = db.replays ++ [⟨r.requestId, r.sessionId, r.nonce, now⟩] ∧
      KeepsKeys db db' := by
  unfold IdentityDb.replayInsert at h
  obtain ⟨_, hseen, h⟩ := bind_eq_ok.mp h
  obtain rfl := Except.ok.inj h
  refine ⟨raiseIf_eq_ok.mp hseen, rfl, rfl, keepsKeys_of_map rfl fun d => ?_⟩
  split <;> exact ⟨rfl, rfl⟩

theorem challengeWrite_tables (db : IdentityDb) (deviceId value now : Str) :
    ((db.challengeWrite deviceId value now).toOption.getD db).devices = db.devices ∧
      ((db.challengeWrite deviceId value now).toOption.getD db).sessions = db.sessions ∧
      ((db.challengeWrite deviceId value now).toOption.getD db).replays = db.replays := by
  unfold IdentityDb.challengeWrite raiseIf
  split <;> exact ⟨rfl, rfl, rfl⟩

theorem enrollWrite_tables (db : IdentityDb) (deviceId publicKey hardwareAssurance now : Str) :
    (db.enrollWrite deviceId publicKey hardwareAssurance now).sessions = db.sessions ∧
      (db.enrollWrite deviceId publicKey hardwareAssurance now).replays = db.replays := by
  unfold IdentityDb.enrollWrite
  split <;> exact ⟨rfl, rfl⟩

/-- Nothing happens to sessions, requests and what is accepted. -/
structure Calm (s t : NodeState) : Prop where
  sessions : t.db.sessions = s.db.sessions
  replays : t.db.replays = s.db.replays
  keys : KeepsKeys s.db t.db
  opened : t.opened = s.opened
  accepted : t.accepted = s.accepted

theorem calm_of_db (hdb : t.db = s.db) (hopened : t.opened = s.opened)
    (haccepted : t.accepted = s.accepted) : Calm s t := by
  refine ⟨?_, ?_, ?_, hopened, haccepted⟩
  · rw [hdb]
  · rw [hdb]
  · rw [hdb]
    exact keepsKeys_of_eq rfl

/-- A session is opened under a new id. -/
structure Opens (s t : NodeState) (row : SessionRow) : Prop where
  unused : ∀ o ∈ s.opened, o.sessionId ≠ row.sessionId
  sessions : t.db.sessions = s.db.sessions ++ [row]
  replays : t.db.replays = s.db.replays
  devices : t.db.devices = s.db.devices
  opened : t.opened = s.opened ++ [row]
  accepted : t.accepted = s.accepted

/-- A request is accepted: neither its id nor its nonce is stored. -/
structure Accepts (s t : NodeState) (e : NodeEvent) (call : Nat) (v : Verifying) : Prop where
  event : e = .requestInsert call
  fresh : s.calls call = some (.fresh v)
  unseen : ¬ s.db.Seen v.request
  sessions : t.db.sessions = s.db.sessions
  replays : ∃ now, t.db.replays
    = s.db.replays ++ [⟨v.request.requestId, v.request.sessionId, v.request.nonce, now⟩]
  keys : KeepsKeys s.db t.db
  opened : t.opened = s.opened
  accepted : t.accepted = s.accepted ++ [v]

theorem start_eq_some {call : Nat} {check : Except PyError Stage}
    (h : s.start call check = some t) : s.setCall call check.toOption = t := by
  unfold NodeState.start at h
  split at h
  · exact Option.some.inj h
  · cases h

/-- **What a step can do** to the tables. -/
theorem step_cases (h : nodeStep lib cfg s e = some t) :
    Calm s t ∨
      (∃ now cutoff, t.db = s.db.prune now cutoff ∧ t.opened = s.opened ∧ t.accepted = s.accepted) ∨
      (∃ deviceId, t.db = s.db.revoke deviceId ∧ t.opened = s.opened ∧ t.accepted = s.accepted) ∨
      (∃ row, Opens s t row) ∨ ∃ call v, Accepts s t e call v := by
  have hstart : ∀ {call : Nat} {check : Except PyError Stage}, s.start call check = some t →
      Calm s t := by
    intro call check h
    rw [← start_eq_some h]
    exact calm_of_db rfl rfl rfl
  cases e with
  | tick now =>
    simp only [nodeStep] at h
    split at h
    · obtain rfl := Option.some.inj h
      exact Or.inl (calm_of_db rfl rfl rfl)
    · cases h
  | sign publicKey message =>
    obtain rfl := Option.some.inj h
    exact Or.inl (calm_of_db rfl rfl rfl)
  | prune now cutoff =>
    simp only [nodeStep] at h
    split at h
    · obtain rfl := Option.some.inj h
      exact Or.inr (Or.inl ⟨_, _, rfl, rfl, rfl⟩)
    · cases h
  | revoke deviceId =>
    obtain rfl := Option.some.inj h
    exact Or.inr (Or.inr (Or.inl ⟨deviceId, rfl, rfl, rfl⟩))
  -- the checks only put a call into its next stage
  | enrollCheck => exact Or.inl (hstart h)
  | challengeCheck => exact Or.inl (hstart h)
  | openCheck => exact Or.inl (hstart h)
  | requestStart => exact Or.inl (hstart h)
  | enrollWrite call =>
    simp only [nodeStep] at h
    split at h
    · obtain rfl := Option.some.inj h
      obtain ⟨hsessions, hreplays⟩ := enrollWrite_tables s.db _ _ _ _
      exact Or.inl ⟨hsessions, hreplays, keepsKeys_enrollWrite _ _ _ _ _, rfl, rfl⟩
    · cases h
  | challengeWrite call value =>
    simp only [nodeStep] at h
    split at h
    · obtain rfl := Option.some.inj h
      obtain ⟨hdevices, hsessions, hreplays⟩ := challengeWrite_tables s.db _ value _
      exact Or.inl ⟨hsessions, hreplays, keepsKeys_of_eq hdevices, rfl, rfl⟩
    · cases h
  | openWrite call sessionId expiresAt =>
    simp only [nodeStep] at h
    split at h
    · split at h
      · next hguard =>
        obtain rfl := Option.some.inj h
        exact Or.inr (Or.inr (Or.inr (Or.inl ⟨_, hguard.1, rfl, rfl, rfl, rfl, rfl⟩)))
      · cases h
    · cases h
  | requestSession call =>
    simp only [nodeStep] at h
    split at h
    · obtain rfl := Option.some.inj h
      exact Or.inl (calm_of_db rfl rfl rfl)
    · cases h
  | requestExpiry call =>
    simp only [nodeStep] at h
    split at h
    · obtain rfl := Option.some.inj h
      exact Or.inl (calm_of_db rfl rfl rfl)
    · cases h
  | requestReplay call =>
    simp only [nodeStep] at h
    split at h
    · obtain rfl := Option.some.inj h
      exact Or.inl (calm_of_db rfl rfl rfl)
    · cases h
  -- the insert is what accepts a request, where no row stands in its way
  | requestInsert call =>
    simp only [nodeStep] at h
    split at h
    · next v hv =>
      split at h
      · obtain rfl := Option.some.inj h
        exact Or.inl (calm_of_db rfl rfl rfl)
      · next db hdb =>
        obtain rfl := Option.some.inj h
        obtain ⟨hunseen, hsessions, hreplays, hkeys⟩ := replayInsert_eq_ok hdb
        exact Or.inr (Or.inr (Or.inr (Or.inr
          ⟨call, v, rfl, hv, hunseen, hsessions, ⟨_, hreplays⟩, hkeys, rfl, rfl⟩)))
    · cases h
  | failed call =>
    obtain rfl := Option.some.inj h
    exact Or.inl (calm_of_db rfl rfl rfl)

/-- A later state: the clock has not gone back, and no key, opened session or signature is lost. -/
structure Ext (s t : NodeState) : Prop where
  clock : s.clock.micros ≤ t.clock.micros
  keys : KeepsKeys s.db t.db
  opened : s.opened ⊆ t.opened
  signed : s.signed ⊆ t.signed

theorem step_clock (h : nodeStep lib cfg s e = some t) :
    s.clock.micros ≤ t.clock.micros ∧ s.signed ⊆ t.signed := by
  have hsame : t.clock = s.clock → t.signed = s.signed →
      s.clock.micros ≤ t.clock.micros ∧ s.signed ⊆ t.signed := by
    intro hclock hsigned
    exact ⟨by rw [hclock], by rw [hsigned]; exact List.Subset.refl _⟩
  cases e with
  | tick now =>
    simp only [nodeStep] at h
    split at h
    · next hle =>
      obtain rfl := Option.some.inj h
      exact ⟨hle, List.Subset.refl _⟩
    · cases h
  | sign publicKey message =>
    obtain rfl := Option.some.inj h
    exact ⟨le_rfl, List.subset_append_left _ _⟩
  | revoke | failed =>
    obtain rfl := Option.some.inj h
    exact hsame rfl rfl
  | enrollCheck | challengeCheck | openCheck | requestStart =>
    obtain rfl := start_eq_some h
    exact hsame rfl rfl
  | prune | enrollWrite | challengeWrite | requestSession | requestExpiry | requestReplay =>
    simp only [nodeStep] at h
    split at h
    · obtain rfl := Option.some.inj h
      exact hsame rfl rfl
    · cases h
  | openWrite =>
    simp only [nodeStep] at h
    split at h
    · split at h
      · obtain rfl := Option.some.inj h
        exact hsame rfl rfl
      · cases h
    · cases h
  | requestInsert =>
    simp only [nodeStep] at h
    split at h
    · split at h
      · obtain rfl := Option.some.inj h
        exact hsame rfl rfl
      · obtain rfl := Option.some.inj h
        exact hsame rfl rfl
    · cases h

/-- **What no step changes.** -/
theorem step_ext (h : nodeStep lib cfg s e = some t) : Ext s t := by
  obtain ⟨hclock, hsigned⟩ := step_clock h
  rcases step_cases h with hcalm | ⟨now, cutoff, hdb, hopened, -⟩ | ⟨deviceId, hdb, hopened, -⟩ |
    ⟨row, hopens⟩ | ⟨call, v, haccepts⟩
  · exact ⟨hclock, hcalm.keys, by rw [hcalm.opened]; exact List.Subset.refl _, hsigned⟩
  · exact ⟨hclock, by rw [hdb]; exact keepsKeys_of_eq rfl,
      by rw [hopened]; exact List.Subset.refl _, hsigned⟩
  · exact ⟨hclock, by rw [hdb]; exact keepsKeys_revoke _ _,
      by rw [hopened]; exact List.Subset.refl _, hsigned⟩
  · exact ⟨hclock,
      keepsKeys_of_eq hopens.devices, by rw [hopens.opened]; exact List.subset_append_left _ _,
      hsigned⟩
  · exact ⟨hclock, haccepts.keys, by rw [haccepts.opened]; exact List.Subset.refl _, hsigned⟩

/-! ## What a call knows -/

theorem Ext.hasKey (hext : Ext s t) {deviceId publicKey : Str} (h : HasKey s deviceId publicKey) :
    HasKey t deviceId publicKey := by
  obtain ⟨d, hd, rfl, rfl⟩ := h
  obtain ⟨d', hd', hid, hkey⟩ := hext.keys d hd
  exact ⟨d', hd', hid, hkey⟩

theorem Ext.wasOpened (hext : Ext s t) {row : SessionRow} (h : WasOpened s row) :
    WasOpened t row := by
  obtain ⟨o, ho, hrow⟩ := h
  exact ⟨o, hext.opened ho, hrow⟩

theorem Owned.mono (h : Owned lib cfg s v) (hext : Ext s t) : Owned lib cfg t v := by
  obtain ⟨key, message, hkey, hmessage, hsigned⟩ := h.signed
  exact ⟨h.session, hext.wasOpened h.opened, h.owner, hext.hasKey h.key, h.timely, h.unexpired,
    ⟨h.ordered.1, h.ordered.2.trans hext.clock⟩, key, message, hkey, hmessage, hext.signed hsigned⟩

section

variable (lib cfg)

/-- What the checks so far have shown of the rows that were read. -/
structure ReadRows (s : NodeState) (request : Request) (checkedAt : UtcTime) (session : SessionRow)
    (device : DeviceRow) : Prop where
  timely : timeCheck lib cfg checkedAt request = .ok ()
  past : checkedAt.micros ≤ s.clock.micros
  named : session.sessionId = request.sessionId
  opened : WasOpened s session
  owner : device.deviceId = session.deviceId
  key : HasKey s device.deviceId device.publicKey

/-- What the checks so far have shown. -/
def Stage.Sound (s : NodeState) : Stage → Prop
  | .timely request checkedAt =>
    timeCheck lib cfg checkedAt request = .ok () ∧ checkedAt.micros ≤ s.clock.micros
  | .found request checkedAt session device => ReadRows lib cfg s request checkedAt session device
  | .live v => ReadRows lib cfg s v.request v.checkedAt v.session v.device ∧
      IdentityDb.expiryCheck lib v.liveAt v.session = .ok () ∧
      v.checkedAt.micros ≤ v.liveAt.micros ∧
      v.liveAt.micros ≤ s.clock.micros
  | .fresh v => Owned lib cfg s v
  | _ => True

end

theorem ReadRows.mono {request : Request} {checkedAt : UtcTime} {session : SessionRow}
    {device : DeviceRow}
    (h : ReadRows lib cfg s request checkedAt session device) (hext : Ext s t) :
    ReadRows lib cfg t request checkedAt session device :=
  ⟨h.timely, h.past.trans hext.clock, h.named, hext.wasOpened h.opened, h.owner, hext.hasKey h.key⟩

theorem Stage.Sound.mono {stage : Stage} (h : stage.Sound lib cfg s) (hext : Ext s t) :
    stage.Sound lib cfg t := by
  cases stage with
  | timely request checkedAt => exact ⟨h.1, h.2.trans hext.clock⟩
  | found request checkedAt session device => exact ReadRows.mono h hext
  | live v => exact ⟨h.1.mono hext, h.2.1, h.2.2.1, h.2.2.2.trans hext.clock⟩
  | fresh v => exact Owned.mono h hext
  | enrolling | challenging | opening => trivial

theorem toOption_map_eq_some {α β : Type} {x : Except PyError α} {f : α → β} {b : β} :
    (x.map f).toOption = some b ↔ ∃ a, x = .ok a ∧ f a = b := by
  rw [toOption_eq_some, map_eq_ok]

theorem sessionCheck_eq_ok {r : Request} {rows : SessionRow × DeviceRow}
    (h : db.sessionCheck r = .ok rows) :
    rows.1 ∈ db.sessions ∧ rows.1.sessionId = r.sessionId ∧ rows.2 ∈ db.devices ∧
      rows.2.deviceId = rows.1.deviceId := by
  unfold IdentityDb.sessionCheck at h
  split at h
  · cases h
  · next row hrow =>
    split at h
    · cases h
    · next device hdevice =>
      split at h
      · obtain rfl := Except.ok.inj h
        unfold IdentityDb.device at hdevice
        exact ⟨List.mem_of_find?_eq_some hrow, by simpa using List.find?_some hrow,
          List.mem_of_find?_eq_some hdevice, by simpa using List.find?_some hdevice⟩
      · cases h

theorem requireSignature_eq_ok {publicKey : Str} {payload : PyVal} {signature error : Str}
    (h : IdentityDb.requireSignature lib publicKey payload signature error = .ok ()) :
    ∃ key message sig, b64decode publicKey = some key ∧ canonicalJson lib payload = .ok message ∧
      b64decode signature = some sig ∧ lib.verify key message sig = .ok true := by
  unfold IdentityDb.requireSignature at h
  split at h
  · next hvalid =>
    unfold IdentityDb.signatureValid at hvalid
    split at hvalid
    · cases hvalid
    · next key hkey =>
      obtain ⟨message, hmessage, hvalid⟩ := bind_eq_ok.mp hvalid
      split at hvalid
      · cases hvalid
      · next sig hsig => exact ⟨key, message, sig, hkey, hmessage, hsig, hvalid⟩
  · cases h

/-- What holds in every state of a run. -/
structure Inv (lib : NodeLib) (cfg : IdentitySettings) (s : NodeState) : Prop where
  unique : (s.db.sessions.map SessionRow.sessionId).Nodup
  opened : ∀ row ∈ s.db.sessions, WasOpened s row
  stages : ∀ call stage, s.calls call = some stage → stage.Sound lib cfg s
  safe : ReplaySafe lib cfg s

/-- A call at a new stage: what its statement has shown. -/
theorem step_calls (hinv : Inv lib cfg s) (hunforged : Unforged lib s e)
    (h : nodeStep lib cfg s e = some t) :
    t.calls = s.calls ∨ ∃ call stage?, t.calls = Function.update s.calls call stage? ∧
      ∀ stage, stage? = some stage → stage.Sound lib cfg s := by
  have hends : ∀ {call : Nat}, t.calls = Function.update s.calls call none →
      t.calls = s.calls ∨ ∃ call stage?, t.calls = Function.update s.calls call stage? ∧
        ∀ stage, stage? = some stage → stage.Sound lib cfg s :=
    fun {call} hcalls => Or.inr ⟨call, none, hcalls, by simp⟩
  cases e with
  | tick | prune =>
    simp only [nodeStep] at h
    split at h
    · obtain rfl := Option.some.inj h
      exact Or.inl rfl
    · cases h
  | sign | revoke =>
    obtain rfl := Option.some.inj h
    exact Or.inl rfl
  | enrollCheck call | challengeCheck call | openCheck call =>
    obtain rfl := start_eq_some h
    refine Or.inr ⟨call, _, rfl, fun stage hstage => ?_⟩
    obtain ⟨_, -, rfl⟩ := toOption_map_eq_some.mp hstage
    trivial
  | enrollWrite | challengeWrite =>
    simp only [nodeStep] at h
    split at h
    · obtain rfl := Option.some.inj h
      exact hends rfl
    · cases h
  | openWrite =>
    simp only [nodeStep] at h
    split at h
    · split at h
      · obtain rfl := Option.some.inj h
        exact hends rfl
      · cases h
    · cases h
  | requestStart call envelope =>
    obtain rfl := start_eq_some h
    refine Or.inr ⟨call, _, rfl, fun stage hstage => ?_⟩
    obtain ⟨request, -, hcheck⟩ := bind_eq_ok.mp (toOption_eq_some.mp hstage)
    obtain ⟨_, htimely, hstage⟩ := bind_eq_ok.mp hcheck
    obtain rfl := Except.ok.inj hstage
    exact ⟨htimely, le_rfl⟩
  | requestSession call =>
    simp only [nodeStep] at h
    split at h
    · next request checkedAt hcall =>
      obtain rfl := Option.some.inj h
      refine Or.inr ⟨call, _, rfl, fun stage hstage => ?_⟩
      obtain ⟨rows, hrows, rfl⟩ := toOption_map_eq_some.mp hstage
      obtain ⟨hsession, hid, hdevice, howner⟩ := sessionCheck_eq_ok hrows
      obtain ⟨htimely, hpast⟩ := hinv.stages call _ hcall
      exact ⟨htimely, hpast, hid, hinv.opened _ hsession, howner, ⟨_, hdevice, rfl, rfl⟩⟩
    · cases h
  | requestExpiry call =>
    simp only [nodeStep] at h
    split at h
    · next request checkedAt session device hcall =>
      obtain rfl := Option.some.inj h
      refine Or.inr ⟨call, _, rfl, fun stage hstage => ?_⟩
      obtain ⟨_, hlive, rfl⟩ := toOption_map_eq_some.mp hstage
      have hread : ReadRows lib cfg s request checkedAt session device := hinv.stages call _ hcall
      exact ⟨hread, hlive, hread.past, le_rfl⟩
    · cases h
  -- the signature verifies, so it is one that was made
  | requestReplay call =>
    simp only [nodeStep] at h
    split at h
    · next v hcall =>
      obtain rfl := Option.some.inj h
      refine Or.inr ⟨call, _, rfl, fun stage hstage => ?_⟩
      obtain ⟨_, hcheck, rfl⟩ := toOption_map_eq_some.mp hstage
      obtain ⟨hread, hlive, hordered⟩ := hinv.stages call _ hcall
      obtain ⟨_, -, hsignature⟩ := bind_eq_ok.mp hcheck
      obtain ⟨key, message, sig, hkey, hmessage, hsig, hverify⟩ := requireSignature_eq_ok hsignature
      exact ⟨hread.named, hread.opened, hread.owner, hread.key, hread.timely, hlive, hordered,
        key, message,
        hkey, hmessage, hunforged call v key message sig rfl hcall hkey hmessage hsig hverify⟩
    · cases h
  | requestInsert =>
    simp only [nodeStep] at h
    split at h
    · split at h
      · obtain rfl := Option.some.inj h
        exact hends rfl
      · obtain rfl := Option.some.inj h
        exact hends rfl
    · cases h
  | failed call =>
    obtain rfl := Option.some.inj h
    exact hends rfl

/-- **The stages stay sound.** -/
theorem step_stages (hinv : Inv lib cfg s) (hunforged : Unforged lib s e)
    (h : nodeStep lib cfg s e = some t) (call : Nat) (stage : Stage)
    (hstage : t.calls call = some stage) :
    stage.Sound lib cfg t := by
  have hext := step_ext h
  rcases step_calls hinv hunforged h with hcalls | ⟨moved, stage?, hcalls, hsound⟩
  · rw [hcalls] at hstage
    exact (hinv.stages call stage hstage).mono hext
  · rw [hcalls] at hstage
    by_cases hcall : call = moved
    · subst hcall
      rw [Function.update_self] at hstage
      exact (hsound stage hstage).mono hext
    · rw [Function.update_of_ne hcall] at hstage
      exact (hinv.stages call stage hstage).mono hext

/-! ## What stays stored -/

/-- A record is forgotten together with its session. -/
theorem kept_prune {now cutoff : Str} (hunique : (s.db.sessions.map SessionRow.sessionId).Nodup)
    (hdb : t.db = s.db.prune now cutoff) (h : Kept s v) : Kept t v := by
  rintro ⟨row, hrow, hid⟩
  rw [hdb] at hrow
  obtain ⟨hmem, hfresh⟩ := List.mem_filter.mp hrow
  obtain ⟨r, hr, hrequest, hsession, hnonce⟩ := h ⟨row, hmem, hid⟩
  refine ⟨r, ?_, hrequest, hsession, hnonce⟩
  rw [hdb]
  refine List.mem_filter.mpr ⟨hr, decide_eq_true ?_⟩
  rintro ⟨other, hother, hstale, hsame⟩
  have hrow_eq : other = row :=
    List.inj_on_of_nodup_map hunique hother hmem (by rw [hsame, hsession, hid])
  exact of_decide_eq_true hfresh (hrow_eq ▸ hstale)

theorem stored_revoke {deviceId sessionId : Str} (hdb : t.db = s.db.revoke deviceId)
    (h : Stored t sessionId) : Stored s sessionId := by
  obtain ⟨row, hrow, hid⟩ := h
  rw [hdb] at hrow
  obtain ⟨before, hbefore, rfl⟩ := List.mem_map.mp hrow
  refine ⟨before, hbefore, ?_⟩
  split at hid <;> exact hid

/-- A request that is accepted is new in its session: were one with its id or nonce accepted before,
the session being stored, its record would be. -/
theorem once_accepts {call : Nat} (hinv : Inv lib cfg s) (hkept : SessionKept s e)
    (h : Accepts s t e call v) : ∀ w ∈ s.accepted, w.request.sessionId = v.request.sessionId →
      w.request.requestId ≠ v.request.requestId ∧ w.request.nonce ≠ v.request.nonce := by
  intro w hw hsession
  have hstored : Stored s w.request.sessionId := hsession ▸ hkept call v h.event h.fresh
  obtain ⟨row, hrow, hrequest, -, hnonce⟩ := hinv.safe.kept w hw hstored
  exact ⟨fun heq => h.unseen ⟨row, hrow, Or.inl (hrequest.trans heq)⟩,
    fun heq => h.unseen ⟨row, hrow, Or.inr (hnonce.trans heq)⟩⟩

/-- **One step.** -/
theorem step_inv (hinv : Inv lib cfg s) (hunforged : Unforged lib s e) (hkept : SessionKept s e)
    (h : nodeStep lib cfg s e = some t) : Inv lib cfg t := by
  have hext := step_ext h
  have hstages := step_stages hinv hunforged h
  have howned : ∀ v ∈ s.accepted, Owned lib cfg t v := fun v hv => (hinv.safe.owned v hv).mono hext
  rcases step_cases h with hcalm | ⟨now, cutoff, hdb, hopened, haccepted⟩ |
    ⟨deviceId, hdb, hopened, haccepted⟩ | ⟨row, hopens⟩ | ⟨call, v, haccepts⟩
  -- the tables that the invariant reads are the same
  · have hstored : ∀ {id : Str}, Stored t id → Stored s id := fun {id} ⟨row, hrow, hid⟩ =>
      ⟨row, hcalm.sessions ▸ hrow, hid⟩
    refine ⟨by rw [hcalm.sessions]; exact hinv.unique, fun row hrow => ?_, hstages, ?_, ?_, ?_⟩
    · exact hext.wasOpened (hinv.opened row (hcalm.sessions ▸ hrow))
    · rw [hcalm.accepted]
      exact hinv.safe.once
    · rw [hcalm.accepted]
      exact howned
    · rw [hcalm.accepted]
      intro v hv hst
      rw [hcalm.replays]
      exact hinv.safe.kept v hv (hstored hst)
  · refine ⟨?_, fun row hrow => ?_, hstages, ?_, ?_, ?_⟩
    · rw [hdb]
      exact hinv.unique.sublist (List.filter_sublist.map _)
    · rw [hdb] at hrow
      exact hext.wasOpened (hinv.opened row (List.mem_filter.mp hrow).1)
    · rw [haccepted]
      exact hinv.safe.once
    · rw [haccepted]
      exact howned
    · rw [haccepted]
      exact fun v hv => kept_prune hinv.unique hdb (hinv.safe.kept v hv)
  -- a session that is revoked keeps its id
  · have hids : (s.db.revoke deviceId).sessions.map SessionRow.sessionId
        = s.db.sessions.map SessionRow.sessionId := by
      rw [IdentityDb.revoke, List.map_map]
      refine List.map_congr_left fun row _ => ?_
      simp only [Function.comp_apply]
      split <;> rfl
    refine ⟨by rw [hdb, hids]; exact hinv.unique, fun row hrow => ?_, hstages, ?_, ?_, ?_⟩
    · rw [hdb] at hrow
      obtain ⟨before, hbefore, rfl⟩ := List.mem_map.mp hrow
      have hwas := hext.wasOpened (hinv.opened before hbefore)
      split <;> exact hwas
    · rw [haccepted]
      exact hinv.safe.once
    · rw [haccepted]
      exact howned
    · rw [haccepted]
      intro v hv hst
      rw [hdb]
      exact hinv.safe.kept v hv (stored_revoke hdb hst)
  -- a session is opened under an id that was never used
  · have hnew : ∀ old ∈ s.db.sessions, old.sessionId ≠ row.sessionId := by
      intro old hold
      obtain ⟨o, ho, hid, -⟩ := hinv.opened old hold
      exact hid ▸ hopens.unused o ho
    refine ⟨?_, fun r hr => ?_, hstages, ?_, ?_, ?_⟩
    · rw [hopens.sessions, List.map_append, List.nodup_append]
      refine ⟨hinv.unique, List.nodup_singleton _, fun a ha b hb => ?_⟩
      obtain ⟨old, hold, rfl⟩ := List.mem_map.mp ha
      obtain rfl := List.mem_singleton.mp hb
      exact hnew old hold
    · rw [hopens.sessions] at hr
      rcases List.mem_append.mp hr with hr | hr
      · exact hext.wasOpened (hinv.opened r hr)
      · obtain rfl := List.mem_singleton.mp hr
        exact ⟨r, by rw [hopens.opened]; exact List.mem_append_right _ hr, rfl, rfl, rfl⟩
    · rw [hopens.accepted]
      exact hinv.safe.once
    · rw [hopens.accepted]
      exact howned
    · rw [hopens.accepted]
      rintro v hv ⟨r, hr, hid⟩
      rw [hopens.replays]
      rw [hopens.sessions] at hr
      rcases List.mem_append.mp hr with hr | hr
      · exact hinv.safe.kept v hv ⟨r, hr, hid⟩
      · -- the new session is not the one of an accepted request, which was opened before
        obtain rfl := List.mem_singleton.mp hr
        obtain ⟨o, ho, hoid, -⟩ := (hinv.safe.owned v hv).opened
        exact absurd (hoid.trans ((hinv.safe.owned v hv).session.trans hid.symm))
          (hopens.unused o ho)
  -- the accepted request has the new row; that it is the first is where the session is needed
  · obtain ⟨now, hreplays⟩ := haccepts.replays
    refine ⟨by rw [haccepts.sessions]; exact hinv.unique, fun row hrow => ?_, hstages, ?_, ?_, ?_⟩
    · exact hext.wasOpened (hinv.opened row (haccepts.sessions ▸ hrow))
    · rw [haccepts.accepted, List.pairwise_append]
      refine ⟨hinv.safe.once, List.pairwise_singleton _ _, fun w hw u hu => ?_⟩
      obtain rfl := List.mem_singleton.mp hu
      exact once_accepts hinv hkept haccepts w hw
    · rw [haccepts.accepted]
      intro w hw
      rcases List.mem_append.mp hw with hw | hw
      · exact howned w hw
      · obtain rfl := List.mem_singleton.mp hw
        exact Owned.mono (hinv.stages call _ haccepts.fresh) hext
    · rw [haccepts.accepted]
      rintro w hw ⟨row, hrow, hid⟩
      rw [hreplays]
      rcases List.mem_append.mp hw with hw | hw
      · obtain ⟨r, hr, hrest⟩ := hinv.safe.kept w hw ⟨row, haccepts.sessions ▸ hrow, hid⟩
        exact ⟨r, List.mem_append_left _ hr, hrest⟩
      · obtain rfl := List.mem_singleton.mp hw
        exact ⟨_, List.mem_append_right _ (List.mem_singleton.mpr rfl), rfl, rfl, rfl⟩

/-! ## Runs -/

theorem inv_init (clock : UtcTime) : Inv lib cfg (.init clock) where
  unique := List.nodup_nil
  opened := by simp [NodeState.init]
  stages := by
    intro call stage h
    cases h
  safe := ⟨List.Pairwise.nil, by simp [NodeState.init], by simp [NodeState.init]⟩

/-- **Replay protection**: in every run, with any interleaving of the statements, in which
signatures are not forged and no request is inserted after its session was forgotten. -/
theorem run_replaySafe {clock : UtcTime} {es : List NodeEvent} {s : NodeState}
    (hquality : Along (nodeStep lib cfg) (fun s e => Unforged lib s e ∧ SessionKept s e)
      (.init clock) es)
    (h : run (nodeStep lib cfg) (.init clock) es = some s) : ReplaySafe lib cfg s :=
  (run_invariant_along (I := Inv lib cfg)
    (fun _ _ _ _ hinv hq hstep => step_inv hinv hq.1 hq.2 hstep) (inv_init clock) hquality h).safe

/-! ### Two runs -/

def noon : UtcTime := ⟨2026, 7, 29, 12, 0, 0, 0⟩

/-- A second before the session expires. -/
def almost : UtcTime := ⟨2026, 7, 29, 12, 14, 59, 0⟩

def expiry : UtcTime := ⟨2026, 7, 29, 12, 15, 0, 0⟩

/-- A second after that. -/
def late : UtcTime := ⟨2026, 7, 29, 12, 15, 1, 0⟩

def phoneKey : Str := 66 :: List.replicate 86 65

def phoneKeyBytes : Bytes := 4 :: List.replicate 64 0

def phoneSignature : Str := (List.replicate 21 (lit "AQEB")).flatten ++ lit "AQ"

/-- A request of the phone, in the session `s1`. -/
def phoneRequest : Request := ⟨lit "r1", lit "s1", almost.isoformat, lit "n1", [], phoneSignature⟩

def phoneEnvelope : List (PyKey × PyVal) :=
  [(.str (lit "request_id"), .str (lit "r1")), (.str (lit "session_id"), .str (lit "s1")),
    (.str (lit "timestamp"), .str almost.isoformat), (.str (lit "nonce"), .str (lit "n1")),
    (.str (lit "intent"), .dict []), (.str (lit "signature"), .str phoneSignature)]

/-- The bytes that the phone signs for a payload. -/
def phoneMessage (payload : PyVal) : Bytes :=
  (canonicalJson ⟨.insertion, fun _ => [], fun _ => none, fun _ _ _ => .ok false⟩
    payload).toOption.getD []

/-- The messages that the phone signs: one to open the session, one for the request. -/
def phoneMessages : List Bytes :=
  [phoneMessage (IdentityDb.sessionPayload (lit "phone") (lit "c1")),
    phoneMessage (requestPayload phoneRequest)]

/-- A provider that knows the signatures of the phone. -/
def phoneLib : NodeLib where
  keySort := .insertion
  str := fun _ => []
  fromisoformat :=
    fun text => ([noon, almost, expiry, late].find? fun t => t.isoformat = text).map fun t =>
    ⟨true, t.micros⟩
  verify := fun key message signature =>
    .ok (key = phoneKeyBytes ∧ message ∈ phoneMessages ∧ signature = List.replicate 64 1)

def phoneSettings : IdentitySettings := ⟨lit "pair", 900, 60⟩

/-- What the phone signs. -/
def phoneSigns : List NodeEvent := phoneMessages.map fun message => .sign phoneKeyBytes message

/-- The phone enrolls and opens its session. -/
def phoneOpens : List NodeEvent :=
  [.enrollCheck 0 (lit "phone") phoneKey (lit "pair") (lit "secure-element"), .enrollWrite 0,
    .challengeCheck 0 (lit "phone"), .challengeWrite 0 (lit "c1"),
    .openCheck 0 (lit "phone") (lit "c1") phoneSignature, .openWrite 0 (lit "s1") expiry,
      .tick almost]

/-- The statements of `verify_request` up to the insert. -/
def phoneAsks (call : Nat) : List NodeEvent :=
  [.requestStart call phoneEnvelope, .requestSession call, .requestExpiry call, .requestReplay call]

/-- The session is forgotten between the checks and the insert of the first call. -/
def phoneTwice : List NodeEvent :=
  phoneOpens ++ phoneAsks 1 ++ phoneAsks 2 ++
    [.requestInsert 2, .tick late, .prune late ⟨2026, 7, 29, 12, 13, 1, 0⟩, .requestInsert 1]

theorem unforged_phone (es : List NodeEvent) :
    Along (nodeStep phoneLib phoneSettings) (Unforged phoneLib) (.init noon)
    (phoneSigns ++ es) := by
  have hsign : ∀ s message, Unforged phoneLib s (.sign phoneKeyBytes message) := by
    intro s message call v key m signature he
    cases he
  refine ⟨hsign _ _, fun t ht => ⟨hsign _ _, fun u hu => ?_⟩⟩
  refine along_of_invariant (I := fun s => ∀ message ∈ phoneMessages,
    (phoneKeyBytes, message) ∈ s.signed)
    (fun s e s' hsigned hstep message hmessage => (step_ext hstep).signed
      (hsigned message hmessage))
    (fun s e hsigned call v key message signature _ _ _ _ _ hverify => ?_) ?_
  · obtain ⟨rfl, hmessage, -⟩ := of_decide_eq_true (Except.ok.inj hverify)
    exact hsigned message hmessage
  · obtain rfl := Option.some.inj ht
    obtain rfl := Option.some.inj hu
    exact fun message hmessage => List.mem_map_of_mem hmessage

/-- A request that is still under way when its session is forgotten is accepted a second time. -/
theorem not_replaySafe : ¬ ∀ (lib : NodeLib) (cfg : IdentitySettings) (clock : UtcTime)
    (es : List NodeEvent)
    (s : NodeState), Along (nodeStep lib cfg) (Unforged lib) (.init clock) es →
      run (nodeStep lib cfg) (.init clock) es = some s → ReplaySafe lib cfg s := by
  intro hall
  have hrun : (run (nodeStep phoneLib phoneSettings) (.init noon) (phoneSigns ++ phoneTwice)).map
      (fun s => s.accepted.map fun v => (v.request.sessionId, v.request.requestId))
      = some [(lit "s1", lit "r1"), (lit "s1", lit "r1")] := by
    decide +kernel
  obtain ⟨s, hs, haccepted⟩ := Option.map_eq_some_iff.mp hrun
  have honce := (hall phoneLib phoneSettings noon _ s (unforged_phone _) hs).once
  have hpairs : (s.accepted.map fun v => (v.request.sessionId, v.request.requestId)).Pairwise
      fun a b => a.1 = b.1 → a.2 ≠ b.2 :=
    List.pairwise_map.mpr (honce.imp fun h hsession => (h hsession).1)
  rw [haccepted, List.pairwise_pair] at hpairs
  exact hpairs rfl rfl

/-- The phone asks once. -/
def phoneOnce : List NodeEvent := phoneSigns ++ (phoneOpens ++ phoneAsks 1)

/-- The session of the request that a call is about to insert. -/
def NodeState.inserting (s : NodeState) (call : Nat) : Option Str :=
  match s.calls call with
  | some (.fresh v) => some v.request.sessionId
  | _ => none

/-- The session is stored when the request is inserted. -/
theorem sessionKept_phoneOnce : Along (nodeStep phoneLib phoneSettings) SessionKept (.init noon)
    (phoneOnce ++ [.requestInsert 1]) := by
  refine along_concat.mpr ⟨along_of_mem fun e he s call v heq => ?_, fun s hs call v he hv => ?_⟩
  · -- no insert comes before the last event
    subst heq
    simp [phoneOnce, phoneSigns, phoneOpens, phoneAsks] at he
  · obtain rfl := NodeEvent.requestInsert.inj he
    have hrun : (run (nodeStep phoneLib phoneSettings) (.init noon) phoneOnce).map
        (fun s => (s.db.sessions.map SessionRow.sessionId, s.inserting 1))
        = some ([lit "s1"], some (lit "s1")) := by
      decide +kernel
    rw [hs, Option.map_some, Option.some.injEq, Prod.mk.injEq] at hrun
    obtain ⟨hsessions, hinserting⟩ := hrun
    rw [NodeState.inserting, hv, Option.some.injEq] at hinserting
    have hmem : v.request.sessionId ∈ s.db.sessions.map SessionRow.sessionId := by
      rw [hsessions, hinserting]
      exact List.mem_cons_self
    obtain ⟨row, hrow, hid⟩ := List.mem_map.mp hmem
    exact ⟨row, hrow, hid⟩

/-- One request, accepted. -/
theorem run_replaySafe_once : ∃ s, run (nodeStep phoneLib phoneSettings) (.init noon)
    (phoneOnce ++ [.requestInsert 1]) = some s ∧ s.accepted.length = 1 ∧
      ReplaySafe phoneLib phoneSettings s := by
  have hrun :
    (run (nodeStep phoneLib phoneSettings) (.init noon) (phoneOnce ++ [.requestInsert 1])).map
      (fun s => s.accepted.length) = some 1 := by
    decide +kernel
  obtain ⟨s, hs, hlength⟩ := Option.map_eq_some_iff.mp hrun
  have hquality : Along (nodeStep phoneLib phoneSettings)
      (fun s e => Unforged phoneLib s e ∧ SessionKept s e) (.init noon)
      (phoneOnce ++ [.requestInsert 1]) :=
    along_and.mpr ⟨unforged_phone _, sessionKept_phoneOnce⟩
  exact ⟨s, hs, hlength, run_replaySafe hquality hs⟩

end Node
